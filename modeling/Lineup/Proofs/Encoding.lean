import Lineup.Proofs.Encoding.Wide
import Lineup.Proofs.FixedPoint
import Lineup.Proofs.Pieces
import Lineup.Proofs.Token.Replaces
import Lineup.Encoding
import Lineup.Run

/-!
# Encodings are kept

A file that is put in order has the encoding it had, and its text is the old text put in
order. For this the new text must not start with a byte-order mark by accident. It does
not: up to a byte that stands in no mark, it starts as the old text does, because only
using directives, which start with trivia or with their keywords, can come to stand at
the start of a file.
-/

namespace Lineup

namespace Encoding

/-- Whether the byte is an ASCII character other than NUL. Such bytes stand in no
mark. -/
def isUnmarked (byte : UInt8) : Bool :=
  0 < byte && byte < 0x80

theorem isUnmarked_mark (encoding : Encoding) :
    ∀ byte ∈ encoding.mark, isUnmarked byte = false := by
  have all : encoding.mark.all (fun byte => !isUnmarked byte) = true := by
    cases encoding with
    | utf8 => rfl
    | utf8Marked => rfl
    | utf16 order => cases order <;> rfl
    | utf32 order => cases order <;> rfl
  intro byte member
  simpa using List.all_eq_true.mp all byte member

/-- The text, if there is any, starts with a byte that stands in no mark. -/
def Unmarked (text : Text) : Prop :=
  ∀ byte ∈ text.head?, isUnmarked byte = true

theorem unmarked_composes : Text.Composes Unmarked where
  lineEnd text member := by
    simp only [lineEnds, List.mem_cons, List.not_mem_nil, or_false] at member
    rcases member with rfl | rfl | rfl | rfl <;> simp [Unmarked, isUnmarked] <;> decide
  append {text other} unmarked behind := by
    cases text with
    | nil => exact behind
    | cons byte text => exact unmarked

/-- Two texts that are the same up to a byte that stands in no mark. -/
inductive Akin : Text → Text → Prop where
  | same (text : Text) : Akin text text
  | apart (front : Text) {byte other : UInt8} {rest others : Text}
        (unmarked : isUnmarked byte = true)
      (alike : isUnmarked other = true) :
        Akin (front ++ byte :: rest) (front ++ other :: others)

namespace Akin

theorem append_left {text other : Text} (akin : Akin text other) (front : Text) :
    Akin (front ++ text) (front ++ other) := by
  cases akin with
  | same => exact .same _
  | apart before unmarked alike =>
      rw [← List.append_assoc, ← List.append_assoc]
      exact .apart _ unmarked alike

theorem append_right {text other : Text} (akin : Akin text other) (behind : Text) :
    Akin (text ++ behind) (other ++ behind) := by
  cases akin with
  | same => exact .same _
  | apart before unmarked alike =>
      rw [List.append_assoc, List.append_assoc]
      exact .apart _ unmarked alike

theorem of_mem {front : Text} {byte : UInt8} (member : byte ∈ front)
    (unmarked : isUnmarked byte = true) (rest others : Text) :
    Akin (front ++ rest) (front ++ others) := by
  obtain ⟨before, after, rfl⟩ := List.append_of_mem member
  rw [List.append_assoc, List.append_assoc]
  exact .apart before unmarked unmarked

theorem startsWith {text other start : Text} (akin : Akin text other)
    (marks : ∀ byte ∈ start, isUnmarked byte = false)
    (starts : other.startsWith start = true) :
    text.startsWith start = true := by
  cases akin with
  | same => exact starts
  | @apart front byte last rest others unmarked alike =>
      rw [Text.startsWith, List.isPrefixOf_iff_prefix] at starts ⊢
      have upTo : front ++ [last] <+: front ++ last :: others := by simp
      have outside : last ∉ start := fun member => by simp [marks last member] at alike
      rcases List.prefix_or_prefix_of_prefix starts upTo with short | long
      · rcases List.prefix_concat_iff.mp short with whole | before
        · exact absurd (by simp [whole]) outside
        · exact before.trans (List.prefix_append _ _)
      · exact absurd (long.subset (by simp)) outside

end Akin

theorem unmarked_of_trivia {lineStart : Bool} {token : Token} {behind : Text}
    (read : Token.IsRead lineStart token behind) (trivia : token.isTrivia = true) :
    Unmarked token.text := by
  cases read with
  | @intro byte more spelled reads =>
      rw [spelled]
      intro other member
      cases member
      rw [Token.isTrivia] at trivia
      generalize token.kind = kind at reads trivia
      generalize more.length = width at reads
      cases reads with
      | lineFeed is => rw [is]; decide
      | carriageReturn is => rw [is]; decide
      | space is =>
          simp only [Byte.isInlineSpace, Bool.or_eq_true, beq_iff_eq] at is
          rcases is with ((rfl | rfl) | rfl) | rfl <;> decide
      | directive is => rw [is]; decide
      | lineComment is => rw [is]; decide
      | blockComment is => rw [is]; decide
      | _ => cases trivia

theorem unmarked_split {lineStart : Bool} {lead : List Token} {behind : Text}
    (run : Token.Run lineStart lead behind)
    (trivia : ∀ token ∈ lead, token.isTrivia = true) :
    ∀ line ∈ TriviaLine.split (Token.joined lead), Unmarked line.text := by
  have plain := Token.Plain.of_trivia trivia run.stands.formed
  have same := (run.starting plain).map_face_lex
  apply (TriviaLine.lines_split _).composed unmarked_composes
  intro token member
  obtain ⟨other, within, equal⟩ := List.mem_map.mp (same ▸ List.mem_map_of_mem member)
  have text : other.text = token.text := congrArg Prod.snd equal
  rw [← text]
  clear same plain member equal text
  induction lead generalizing lineStart with
  | nil => cases within
  | cons first lead ih =>
      rw [List.forall_mem_cons] at trivia
      cases List.mem_cons.mp within with
      | inl own =>
          rw [own]
          exact unmarked_of_trivia run.1 trivia.1
      | inr later => exact ih run.2 trivia.2 later

/-- A node without a body that cannot be taken for a mark, wherever it stands in its
list. -/
structure Opens (node : Node) : Prop where
  leading : ∀ line ∈ TriviaLine.split node.leading, Unmarked line.text
  content : ∃ byte rest, node.segments = [.text (byte :: rest)] ∧ isUnmarked byte = true

namespace Opens

theorem reorganize_eq {node : Node} (opens : Opens node) (options : Options)
    (source : Text) :
    (node.reorganize options source).1 = node := by
  obtain ⟨byte, rest, segments, -⟩ := opens.content
  cases node with
  | mk info all =>
      cases segments
      simp [Node.reorganize, Segment.reorganizeAll, Segment.reorganize]

theorem printed {node : Node} (unmarked : Unmarked node.leading)
    (content : ∃ byte rest, node.segments = [.text (byte :: rest)]
      ∧ isUnmarked byte = true)
    (behind : Text) :
    ∃ byte rest, node.print ++ behind = byte :: rest ∧ isUnmarked byte = true := by
  obtain ⟨byte, rest, segments, plain⟩ := content
  cases node with
  | mk info all =>
      cases segments
      rw [Node.print_mk, Segment.printAll_cons, Segment.printAll_nil,
        Segment.print_text]
      rw [Node.leading, Node.info] at unmarked
      cases leading : info.leading with
      | nil => exact ⟨byte, _, rfl, plain⟩
      | cons first more =>
          rw [leading] at unmarked
          exact ⟨first, _, rfl, unmarked first rfl⟩

theorem print {node : Node} (opens : Opens node) (behind : Text) :
    ∃ byte rest, node.print ++ behind = byte :: rest ∧ isUnmarked byte = true := by
  apply printed _ opens.content
  rw [← TriviaLine.joined_split node.leading]
  exact unmarked_composes.flatMap opens.leading

/-- A list of such nodes starts with no mark after it is rearranged. -/
theorem printAll_list (options : Options) (source : Text) (fallback : AccessLevel)
    (kind : ListKind) {items : List Node} (present : items ≠ [])
    (opens : ∀ item ∈ items, Opens item) (behind : Text) :
    ∃ byte rest, Node.printAll (Arrange.list options source fallback kind items).1
      ++ behind = byte :: rest ∧ isUnmarked byte = true := by
  have leading := Arrange.leading_list options source fallback kind unmarked_composes
    fun item member => (opens item member).leading
  obtain ⟨order, perm, twins⟩ := Arrange.list_twin options source fallback kind items
  cases rearranged : (Arrange.list options source fallback kind items).1 with
  | nil =>
      have length := Arrange.list_length options source fallback kind items
      rw [rearranged] at length
      exact absurd (List.eq_nil_of_length_eq_zero length.symm) present
  | cons first others =>
      rw [rearranged] at leading twins
      obtain ⟨node, member, twin⟩ := exists_of_forall₂ twins List.mem_cons_self
      rw [Node.printAll_cons, List.append_assoc]
      apply printed (leading first List.mem_cons_self)
      rw [twin.segments]
      exact (opens node (perm.mem_iff.mp member)).content

end Opens

end Encoding

namespace Parser

open Encoding (Opens Akin)

theorem run_behind {front tokens : List Token}
    (run : ∃ lineStart, Token.Run lineStart (front ++ tokens) []) :
    ∃ lineStart, Token.Run lineStart tokens [] := by
  obtain ⟨lineStart, run⟩ := run
  exact ⟨_, (Token.run_append.mp run).2⟩

theorem unmarked_keyword {first : Token}
    (keyword : first.is "global" = true ∨ first.is "using" = true) :
    ∃ byte rest, first.text = byte :: rest ∧ Encoding.isUnmarked byte = true := by
  simp only [Token.is, Bool.and_eq_true, beq_iff_eq] at keyword
  rcases keyword with ⟨-, text⟩ | ⟨-, text⟩
  · exact ⟨_, _, text, by decide⟩
  · exact ⟨_, _, text, by decide⟩

theorem unmarked_header {tokens : List Token}
    (ends : ∃ front last, tokens = front ++ [last]
      ∧ (last.is openBrace = true ∨ last.is ";" = true)) :
    ∃ byte ∈ Token.joined tokens, Encoding.isUnmarked byte = true := by
  obtain ⟨front, last, rfl, opens⟩ := ends
  simp only [Token.is, Bool.and_eq_true, beq_iff_eq] at opens
  rw [Token.joined_append, Token.joined_cons]
  rcases opens with ⟨-, text⟩ | ⟨-, text⟩
  · exact ⟨Byte.openBrace,
      by rw [text]; exact List.mem_append_right _ List.mem_cons_self, by decide⟩
  · exact ⟨0x3b,
      by rw [text]; exact List.mem_append_right _ List.mem_cons_self, by decide⟩

/-- A using directive starts with trivia or with its keyword. -/
theorem Parsed.opens {scope : Scope} {nodes : List Node} {tokens rest : List Token}
    (parsed : Parsed scope nodes tokens rest)
    (run : ∃ lineStart, Token.Run lineStart (tokens ++ rest) []) :
    ∀ node ∈ nodes, node.kind = .usingDirective → Opens node := by
  induction parsed with
  | nil => simp
  | @leaf scope id kind first head lead core trail tokens rest nodes trivia starts
        inside reads trails others ih =>
      have whole : lead ++ first :: (core ++ (trail ++ tokens)) ++ rest
          = lead ++ (first :: (core ++ trail) ++ (tokens ++ rest)) := by simp
      rw [whole] at run
      rw [List.forall_mem_cons]
      refine ⟨fun is => ⟨?_, ?_⟩, ih (run_behind (run_behind run))⟩
      · obtain ⟨lineStart, run⟩ := run
        exact Encoding.unmarked_split (Token.run_append.mp run).1 trivia
      · obtain ⟨byte, more, text, unmarked⟩ := unmarked_keyword
          (Item.is_of_directive starts ((congrArg Item.kind reads).trans is))
        refine ⟨byte, more ++ Token.joined core, ?_, unmarked⟩
        rw [Node.segments, Token.joined_cons, text, List.cons_append]
  | @block scope inner id kind first head lead header opening body closing trail tokens
        rest nodes members final trivia starts inside reads opens within closes others
        ihWithin ih =>
      have whole : lead ++ first
          :: (header ++ (opening ++ (body ++ (closing ++ (trail ++ tokens)))))
            ++ rest
          = lead ++ first :: (header ++ (opening ++ (body ++ (closing ++ trail))))
            ++ (tokens ++ rest) := by
        simp
      rw [whole] at run
      rw [List.forall_mem_cons]
      exact ⟨fun is => absurd is (Item.kind_of_block reads), ih (run_behind run)⟩

theorem gather_of_directive {node : Node} (is : node.kind = .usingDirective)
    (nodes : List Node) :
    ∃ items segments,
      gather (node :: nodes) = .list .directives (node :: items) :: segments
      ∧ ∀ item ∈ items, item ∈ nodes ∧ item.kind = .usingDirective := by
  induction nodes generalizing node with
  | nil => exact ⟨[], [], by rw [gather, if_pos is]; rfl, by simp⟩
  | cons next nodes ih =>
      rw [gather, if_pos is]
      by_cases also : next.kind = .usingDirective
      · obtain ⟨items, segments, found, each⟩ := ih also
        rw [found]
        refine ⟨next :: items, segments, rfl, ?_⟩
        rw [List.forall_mem_cons]
        refine ⟨⟨List.mem_cons_self, also⟩, fun item member => ?_⟩
        exact ⟨List.mem_cons_of_mem _ (each item member).1, (each item member).2⟩
      · rw [gather, if_neg also]
        exact ⟨[], _, rfl, by simp⟩

/-- A file that starts with using directives does so after they are rearranged. -/
theorem akin_of_directive (options : Options) (source : Text) (fallback : AccessLevel)
    {node : Node} {nodes : List Node} (is : node.kind = .usingDirective)
    (opens : ∀ item ∈ node :: nodes, item.kind = .usingDirective → Opens item) :
    Akin (Segment.printAll (gather (node :: nodes)))
      (Segment.printAll (Segment.reorganizeAll options source fallback
        (gather (node :: nodes))).1) := by
  obtain ⟨items, segments, found, each⟩ := gather_of_directive is nodes
  have all : ∀ item ∈ node :: items, Opens item := by
    rw [List.forall_mem_cons]
    refine ⟨opens node List.mem_cons_self is, fun item member => ?_⟩
    exact opens item (List.mem_cons_of_mem _ (each item member).1) (each item member).2
  have inner : (Node.reorganizeAll options source (node :: items)).1
      = node :: items := by
    rw [Node.reorganizeAll_fst]
    exact (List.map_congr_left fun item member =>
      (all item member).reorganize_eq options source).trans
      (List.map_id' _)
  rw [found, Segment.reorganizeAll, Segment.reorganize, Segment.printAll_cons,
    Segment.printAll_cons, Segment.print_list, Segment.print_list, inner]
  obtain ⟨byte, rest, before, unmarked⟩ := (all node List.mem_cons_self).print
    (Node.printAll items ++ Segment.printAll segments)
  obtain ⟨other, others, after, alike⟩ :=
    Opens.printAll_list options source fallback .directives
    (List.cons_ne_nil node items) all
    (Segment.printAll (Segment.reorganizeAll options source fallback segments).1)
  rw [Node.printAll_cons, List.append_assoc, before, after]
  exact .apart [] unmarked alike

/-- The texts of the nodes of a file before and after they are rearranged are akin. -/
theorem Parsed.akin {scope : Scope} {nodes : List Node} {tokens rest : List Token}
    (parsed : Parsed scope nodes tokens rest) (options : Options) (source : Text)
    (fallback : AccessLevel)
    (opens : ∀ node ∈ nodes, node.kind = .usingDirective → Opens node) :
    Akin (Segment.printAll (gather nodes))
      (Segment.printAll (Segment.reorganizeAll options source fallback
        (gather nodes)).1) := by
  induction parsed with
  | nil =>
      rw [gather, Segment.reorganizeAll]
      exact .same _
  | @leaf scope id kind first head lead core trail tokens rest nodes trivia starts
        inside reads trails others ih =>
      by_cases is : kind = .usingDirective
      · exact akin_of_directive options source fallback is opens
      · have later := ih (List.forall_mem_cons.mp opens).2
        rw [gather_other (by exact is), Segment.reorganizeAll, Segment.printAll_cons,
          Segment.printAll_cons]
        simp only [Segment.reorganize, Node.reorganize, Segment.reorganizeAll]
        exact later.append_left _
  | @block scope inner id kind first head lead header opening body closing trail tokens
        rest nodes members final trivia starts inside reads opens within closes others
        ihWithin ih =>
      obtain ⟨byte, member, unmarked⟩ : ∃ byte ∈ Token.joined (first :: header),
          Encoding.isUnmarked byte = true := unmarked_header (Item.header_ends reads)
      rw [gather_other (Item.kind_of_block reads), Segment.reorganizeAll,
        Segment.printAll_cons, Segment.printAll_cons]
      simp only [Segment.reorganize, Node.reorganize, Segment.reorganizeAll,
        List.cons_append, Segment.print_node, Node.print_mk, Segment.printAll_cons,
        Segment.print_text, List.append_assoc]
      exact (Akin.of_mem member unmarked _ _).append_left _

/-- The text of a file before and after it is put in order is akin. -/
theorem File.akin {tokens : List Token} {top : Node} (file : File tokens top)
    (run : Token.Run true tokens []) (options : Options) (source : Text) :
    Akin top.print (top.reorganize options source).1.print := by
  cases file with
  | @intro nodes tokens tail parsed trivia all =>
      subst all
      have body := parsed.akin options source (AccessLevel.default .compilationUnit)
        (parsed.opens ⟨true, run⟩)
      have last : Segment.reorganizeAll options source
          (AccessLevel.default .compilationUnit)
          (if (Token.joined tail).isEmpty then [] else [.text (Token.joined tail)])
          = (if (Token.joined tail).isEmpty then [] else [.text (Token.joined tail)],
            {}) := by
        split <;> rfl
      have behind := congrArg Prod.fst last
      simp only [Segment.reorganizeAll_fst] at body behind
      simp only [Scope.body_items, Body.segments, Node.reorganize, Node.print_mk,
        Segment.reorganizeAll_fst, List.map_append, Segment.printAll_append, behind,
        List.nil_append, List.append_nil]
      exact body.append_right _

end Parser

/-- A text that is reported as unchanged is not changed. -/
theorem reorganizeText_of_unchanged {options : Options} {source : Text}
    (unchanged : (reorganizeText options source).2.isChanged = false) :
    (reorganizeText options source).1 = source := by
  have rest := (Node.isChanged_reorganize_iff options source (Tree.parse source).top).mp
    unchanged
  have printed : (reorganizeText options source).1
      = ((Tree.parse source).top.reorganize options source).1.print :=
    Tree.print_reorganize_parse options source
  rw [printed, Node.reorganize_of_rest options source _ rest,
    (Parser.parse_file source).print, Token.joined_lex]

theorem akin_reorganizeText (options : Options) (source : Text) :
    Encoding.Akin source (reorganizeText options source).1 := by
  have akin := (Parser.parse_file source).akin (Token.run_lexFrom true 0 source)
    options source
  rw [(Parser.parse_file source).print, Token.joined_lex] at akin
  rwa [← Tree.print_reorganize_parse] at akin

namespace Encoding

/-- A file starts with the mark of its encoding. -/
theorem mark_append_drop (data : Text) :
    (detect data).mark ++ data.drop (detect data).mark.length = data := by
  have starts : (detect data).mark <+: data := by
    rw [detect]
    generalize found : List.find? _ _ = first
    cases first with
    | none => exact List.nil_prefix
    | some encoding =>
        have marked := List.find?_some found
        exact List.isPrefixOf_iff_prefix.mp marked
  exact List.prefix_iff_eq_append.mp starts

/-- A file is taken for plain UTF-8 when it starts with no mark. -/
theorem detect_eq_utf8_iff (data : Text) : detect data = .utf8
    ↔ ∀ encoding : Encoding, encoding ≠ .utf8 →
      data.startsWith encoding.mark = false := by
  constructor
  · intro plain encoding other
    rw [detect] at plain
    generalize found : List.find? _ _ = first at plain
    cases first with
    | some encoding =>
        have member := List.mem_of_find?_eq_some found
        rw [Option.getD_some] at plain
        simp [plain] at member
    | none =>
        apply Bool.eq_false_iff.mpr
        apply List.find?_eq_none.mp found encoding
        cases encoding with
        | utf8 => exact absurd rfl other
        | utf8Marked => simp
        | utf16 order => cases order <;> simp
        | utf32 order => cases order <;> simp
  · intro unmarked
    have marked := unmarked .utf8Marked nofun
    have little := unmarked (.utf16 .littleEndian) nofun
    have big := unmarked (.utf16 .bigEndian) nofun
    have longLittle := unmarked (.utf32 .littleEndian) nofun
    have longBig := unmarked (.utf32 .bigEndian) nofun
    simp only [detect, List.find?, marked, little, big, longLittle, longBig,
      Option.getD_none]

/-- A body in UTF-16 that starts with a NUL character would be taken for UTF-32. -/
theorem detect_littleEndian (body : Text) :
    detect ((utf16 .littleEndian).mark ++ body)
      = if body.startsWith [0, 0] then .utf32 .littleEndian
        else .utf16 .littleEndian := by
  have marked : Text.startsWith ((utf16 .littleEndian).mark ++ body) utf8Marked.mark
      = false := rfl
  have short : Text.startsWith ((utf16 .littleEndian).mark ++ body)
      (utf16 .littleEndian).mark
      = true := rfl
  have long : Text.startsWith ((utf16 .littleEndian).mark ++ body)
      (utf32 .littleEndian).mark
      = body.startsWith [0, 0] := rfl
  simp only [detect, List.find?, marked, long, short]
  cases body.startsWith [0, 0] <;> rfl

/-- All other marks are told from each other. -/
theorem detect_mark_append (encoding : Encoding) (marked : encoding ≠ .utf8)
    (other : encoding ≠ .utf16 .littleEndian) (body : Text) :
    detect (encoding.mark ++ body) = encoding := by
  cases encoding with
  | utf8 => exact absurd rfl marked
  | utf8Marked => rfl
  | utf16 order =>
      cases order with
      | littleEndian => exact absurd rfl other
      | bigEndian => rfl
  | utf32 order => cases order <;> rfl

/-- What a body holds is read from it again. -/
theorem decodeBody_encodeBody (encoding : Encoding) {text : Text}
    (formed : text.WellFormed ∨ encoding = .utf8 ∨ encoding = .utf8Marked) :
    encoding.decodeBody (encoding.encodeBody text) = text := by
  have wide (formed : text.WellFormed) : Text.ofChars text.chars = text :=
    formed.ofChars_chars
  cases encoding with
  | utf8 => rfl
  | utf8Marked => rfl
  | utf16 order =>
      rw [encodeBody, decodeBody, Utf16.read_write]
      exact wide (by simpa using formed)
  | utf32 order =>
      rw [encodeBody, decodeBody, Utf32.read_write]
      exact wide (by simpa using formed)

theorem wellFormed_decodeBody (encoding : Encoding) (body : Text) :
    (encoding.decodeBody body).WellFormed ∨ encoding = .utf8
      ∨ encoding = .utf8Marked := by
  cases encoding with
  | utf8 => exact .inr (.inl rfl)
  | utf8Marked => exact .inr (.inr rfl)
  | utf16 order => exact .inl ⟨_, rfl⟩
  | utf32 order => exact .inl ⟨_, rfl⟩

theorem decode_encode {encoding : Encoding} {text : Text}
    (detected : detect (encoding.encode text) = encoding)
    (formed : text.WellFormed ∨ encoding = .utf8 ∨ encoding = .utf8Marked) :
    decode (encoding.encode text) = (text, encoding) := by
  rw [decode, detected, encode, List.drop_left, decodeBody_encodeBody encoding formed]

/-- The encoding of a file is found again when a text that starts alike is put in the
place of its text. -/
theorem detect_encode {data text : Text} (akin : Akin (decode data).1 text)
    (formed : text.WellFormed ∨ detect data = .utf8 ∨ detect data = .utf8Marked) :
    detect ((detect data).encode text) = detect data := by
  have whole := mark_append_drop data
  rw [decode] at akin
  cases encoding : detect data with
  | utf8 =>
      rw [encoding] at akin
      rw [detect_eq_utf8_iff] at encoding ⊢
      intro other marked
      apply Bool.eq_false_iff.mpr
      intro starts
      have before := akin.startsWith other.isUnmarked_mark starts
      rw [decodeBody, mark, List.length_nil, List.drop_zero,
        encoding other marked] at before
      cases before
  | utf8Marked => exact detect_mark_append .utf8Marked nofun nofun _
  | utf16 order =>
      cases order with
      | bigEndian => exact detect_mark_append (.utf16 .bigEndian) nofun nofun _
      | littleEndian =>
          rw [encoding] at whole akin formed
          rw [encode, detect_littleEndian, if_neg]
          intro starts
          obtain ⟨characters, rfl⟩ : text.WellFormed := by simpa using formed
          rw [encodeBody, Text.chars_ofChars] at starts
          -- A NUL character at the start would have been there before.
          have nul : ∀ byte ∈ [(0 : UInt8)], isUnmarked byte = false := by
            simp [isUnmarked]
          have before := akin.startsWith nul
            ((Utf16.startsWith_iff characters).mpr
              (Utf16.startsWith_write_iff.mp starts))
          have read := Utf16.startsWith_of_read before
          rw [← whole, detect_littleEndian, if_pos read] at encoding
          cases encoding
  | utf32 order => exact detect_mark_append (.utf32 order) nofun nofun _

/-- Putting a file in order goes along with decoding it: the new file has the encoding
of the old one, and its text is the text of the old one put in order. -/
theorem decode_reorganizeData (options : Options) (data : Text) :
    decode (reorganizeData options data).1
      = ((reorganizeText options (decode data).1).1, (decode data).2) := by
  have formed : (reorganizeText options (decode data).1).1.WellFormed
      ∨ detect data = .utf8 ∨ detect data = .utf8Marked :=
    (wellFormed_decodeBody (detect data) _).imp_left (wellFormed_reorganizeText options)
  cases changed : (reorganizeText options (decode data).1).2.isChanged with
  | true =>
      simp only [reorganizeData, changed, if_true]
      exact decode_encode (detect_encode (akin_reorganizeText options _) formed) formed
  | false =>
      simp only [reorganizeData, changed, Bool.false_eq_true, if_false,
        reorganizeText_of_unchanged changed]

end Encoding

end Lineup
