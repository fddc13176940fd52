import Lineup.Reorganize
import Lineup.Encoding
import Lineup.Log
import Lineup.Version
import Lineup.Stats
import Lineup.SourceFile
import Lineup.Disk.Lock
import Lineup.Disk.Scan
import Lineup.Exclusion
import Lineup.Yaml.Value
import Lineup.Config.File
import Lineup.Watch
import Lineup.Command
import Lineup.Disk.Build
import Lineup.Main
import Lineup.Proofs.Order
import Lineup.Proofs.Rest
import Lineup.Proofs.Directory
import Lineup.Proofs.Encoding
import Lineup.Proofs.Placement
import Lineup.Proofs.Syntax.Skeleton
import Lineup.Proofs.Arena
import Lineup.Proofs.Units
import Lineup.Proofs.Sections.Rearranged
import Lineup.Proofs.Encoding.RoundTrip
import Lineup.Proofs.Changes
import Lineup.Proofs.Exclusion.Entries
import Lineup.Proofs.Disk.Scan
import Lineup.Proofs.Watch
import Lineup.Proofs.Config.Exclude
import Lineup.Proofs.Token.Verbatim
import Lineup.Proofs.Member.Declared
import Lineup.Proofs.Token.Restart
import Lineup.Proofs.Token.Interpolated
import Lineup.Proofs.Padding
import Lineup.Proofs.Directive.Recovered
import Lineup.Proofs.Exclusion.Names
import Lineup.Proofs.Order.Signs
import Lineup.Proofs.Token.Tiles
import Lineup.Proofs.Syntax.Surroundings
import Lineup.Proofs.Again.Settled
import Lineup.Proofs.Disk.Nearest
import Lineup.Proofs.Order.Ranks
import Lineup.Proofs.LineEnds
