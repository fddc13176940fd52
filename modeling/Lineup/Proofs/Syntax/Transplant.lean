import Lineup.Proofs.Syntax.Alignment
import Lineup.Proofs.Syntax.Closed

/-!
# Moving members

Members that are read in front of a word can be taken out of their context: without
their trivia they are read in the same way in front of everything that does not continue
them. At every depth, each item among them is followed by the rest of the members, so it
does not see what stands behind all of them.
-/

namespace Lineup

namespace Parser

open Token (bare gist solid_gist)
open Lineup.Span (Clear IsWord Stops)

namespace Item

/-- The item with another width. -/
def withWidth (width : Nat) : Item → Item
  | .leaf kind head _ => .leaf kind head width
  | .block kind head scope _ => .block kind head scope width

theorem Fits.width_le {tokens : List Token} {item : Item} (fits : item.Fits tokens) :
    item.width ≤ tokens.length := by
  cases fits with
  | leaf positive ends => exact ends.le_length
  | block found opens => exact (List.getElem?_eq_some_iff.mp found).1

theorem width_of_meets {tokens : List Token} {width other : Nat}
    (meets : Span.Meets tokens width other)
    (inside : other ≤ (Token.significant tokens).length) :
    other = (gist (tokens.take width)).length := by
  rw [gist, List.length_map, meets.taken, List.length_take, Nat.min_eq_left inside]

theorem next_gist (scope : Scope) {first : Token} (solid : first.isTrivia = false)
    (rest : List Token) :
    next scope first.bare (gist rest) = (next scope first rest).bare.withWidth
      (gist ((first :: rest).take (next scope first rest).width)).length := by
  have projects := projects_next solid rest scope
  have fits := (next_fits scope first (Token.significant rest)).width_le
  rw [← Token.significant_cons solid] at fits
  rw [gist, next_bare]
  generalize next scope first rest = item at projects ⊢
  generalize next scope first (Token.significant rest) = left at projects fits
  cases projects with
  | leaf meets =>
      rw [width_of_meets meets fits]
      rfl
  | block meets =>
      rw [width_of_meets meets fits]
      rfl

theorem scope_next_members {first : Token} {rest head : List Token} {kind : NodeKind}
    {inner : Scope} {width : Nat}
    (reads : next .members first rest = .block kind head inner width) :
    inner = .members := by
  simp only [next] at reads
  split at reads
  · exact scope_ofType reads
  · cases reads

end Item

theorem trailing_solid {tokens : List Token}
    (solid : ∀ token ∈ tokens, token.isTrivia = false) :
    Span.trailing tokens = 0 := by
  cases tokens with
  | nil => rfl
  | cons token rest => simp [Span.trailing, solid token List.mem_cons_self]

/-- Wherever one starts within the tokens, they end with a boundary that no open
attribute list reaches. -/
def Sound (tokens : List Token) : Prop :=
  ∀ part, part <:+ tokens → part ≠ [] → Stops part ∧ Span.skipAttributes 0 part ≠ []

theorem Sound.suffix {tokens part : List Token} (sound : Sound tokens)
    (ending : part <:+ tokens) :
    Sound part :=
  fun other within => sound other (within.trans ending)

theorem semicolon_gist {final behind : List Token}
    (ends : Span.semicolon (final ++ behind) = final.length) :
    Span.semicolon (gist (final ++ behind)) = (gist final).length := by
  have meets := Span.semicolon_meets (final ++ behind)
  have width := Item.width_of_meets meets (Span.semicolon_le _)
  rwa [ends, List.take_left, ← Span.semicolon_bare] at width

/-- The first of several nodes is read on its own in front of the others. -/
theorem Parsed.uncons {scope : Scope} {node : Node} {nodes : List Node}
    {tokens rest : List Token} (parsed : Parsed scope (node :: nodes) tokens rest) :
    ∃ own others, tokens = own ++ others
      ∧ Parsed scope [node] own (others ++ rest) ∧ Parsed scope nodes others rest := by
  cases parsed with
  | @leaf _ id kind first head lead core trail others _ _ trivia starts inside reads
    trails later =>
      refine ⟨lead ++ first :: (core ++ (trail ++ [])), others, by simp, ?_, later⟩
      exact .leaf id trivia starts inside reads trails .nil
  | @block _ inner id kind first head lead header opening body closing trail others
        _ _ members final trivia starts inside reads opens within closes later =>
      refine ⟨lead ++ first
        :: (header ++ (opening ++ (body ++ (closing ++ (trail ++ []))))), others,
        by simp, ?_, later⟩
      exact .block id trivia starts inside reads opens within closes .nil

section Stops

variable {word : Token} (plain : IsWord word) {more rest : List Token}
  (behind : gist rest = word :: more)

include plain behind

/-- A body that a word follows ends with a boundary. -/
theorem Closes.stops {closing trail : List Token} {final : List Segment}
    (closes : Closes .members closing trail rest final) : Stops (gist closing) := by
  cases closes with
  | text braced trivia => cases behind
  | nothing unbraced => cases unbraced
  | @brace lead final trail rest brace braced trivia is ends trails =>
      have boundary : Span.isBoundary brace = true := by simp [Span.isBoundary, is]
      rw [gist_lead trivia, Token.gist_cons (Span.solid_of_isBoundary boundary)]
      have width := semicolon_gist ends
      rw [Token.gist_append, Token.gist_append, gist_trail trails, behind] at width
      rcases Span.semicolon_stops plain more width with zero | stops
      · rw [zero]
        exact .single boundary
      · exact stops.cons brace.bare

/-- A member that a word follows ends with a boundary. -/
theorem Parsed.stops {node : Node} {tokens : List Token}
    (parsed : Parsed .members [node] tokens rest) : Stops (gist tokens) := by
  cases parsed with
  | @leaf _ id kind first head lead core trail tokens _ _ trivia starts inside reads
    trails others =>
      cases others
      have read := Item.next_gist .members starts (core ++ (trail ++ ([] ++ rest)))
      rw [reads, Token.gist_append, Token.gist_append, gist_trail trails] at read
      simp only [List.nil_append, behind] at read
      rw [gist_lead trivia, Token.gist_cons starts, List.append_nil, Token.gist_append,
        gist_trail trails, List.append_nil]
      apply Item.next_stops plain more
      rw [read]
      simp only [Item.width, List.take_succ_cons, List.take_left,
        Token.gist_cons starts]
      rfl
  | @block _ inner id kind first head lead header opening body closing trail tokens
        _ _ members final trivia starts inside reads opens within closes others =>
      cases others
      obtain rfl := Item.scope_next_members reads
      have stops := closes.stops plain behind
      rw [gist_lead trivia, Token.gist_cons starts]
      simp only [Token.gist_append, closes.trail_trivial, List.append_nil]
      exact (((stops.append (gist body)).append (gist opening)).append
        (gist header)).cons first.bare

end Stops

section Transplant

variable {word : Token} (plain : IsWord word) {more after : List Token}
  (clear : Clear after)

include plain clear

/-- An item among sound tokens is read in the same way in front of everything that does
not continue it. -/
theorem next_transplant {first : Token} {own behind tail : List Token}
    (solid : first.isTrivia = false) (rest : gist behind = tail ++ word :: more)
    (inside : (Item.next .members first (own ++ behind)).width = own.length + 1)
    (sound : Sound (first.bare :: (gist own ++ tail))) :
    Item.next .members first.bare (gist own ++ (tail ++ after))
      = (Item.next .members first (own ++ behind)).bare.withWidth
        ((gist own).length + 1) := by
  obtain ⟨stops, closed⟩ := sound _ (List.suffix_refl _) (List.cons_ne_nil _ _)
  have significant : Token.significant (first.bare :: (gist own ++ tail))
      = first.bare :: (gist own ++ tail) := by
    apply Token.significant_eq_self
    rw [List.forall_mem_cons, List.forall_mem_append]
    refine ⟨solid, solid_gist, ?_⟩
    intro token member
    have among : token ∈ gist behind := rest ▸ List.mem_append_left _ member
    exact solid_gist token among
  rw [← significant] at stops closed
  have read := Item.next_gist .members solid (own ++ behind)
  rw [inside, List.take_succ_cons, List.take_left, Token.gist_cons solid,
    List.length_cons, Token.gist_append, rest, ← List.append_assoc] at read
  rw [← List.append_assoc, Item.next_append (plain.akin more clear) stops closed, read]
  rw [read]
  have width (item : Item) (count : Nat) : (item.withWidth count).width = count := by
    cases item <;> rfl
  rw [width, List.length_append]
  omega

/-- The brace of a body takes the same semicolon along. -/
theorem Closes.transplant {closing trail rest tail : List Token} {final : List Segment}
    (closes : Closes .members closing trail rest final)
    (behind : gist rest = tail ++ word :: more)
    (solid : ∀ token ∈ tail ++ after, token.isTrivia = false) :
    Closes .members (gist closing) [] (tail ++ after)
      [.text (Token.joined (gist closing))] := by
  cases closes with
  | text braced trivia => simp at behind
  | nothing unbraced => cases unbraced
  | @brace lead final trail rest brace braced trivia is ends trails =>
      have significant : brace.isTrivia = false :=
        Span.solid_of_isBoundary (by simp [Span.isBoundary, is])
      have width := semicolon_gist ends
      have ahead : gist (final ++ (trail ++ rest))
          = gist final ++ tail ++ word :: more := by
        rw [Token.gist_append, Token.gist_append, gist_trail trails, List.nil_append,
          behind, List.append_assoc]
      have closed : gist (lead ++ brace :: final) = [] ++ brace.bare :: gist final := by
        rw [gist_lead trivia, Token.gist_cons significant, List.nil_append]
      rw [closed]
      refine .brace braced (by simp) is ?_ (trailing_solid solid)
      rw [List.nil_append, ← List.append_assoc,
        clear.semicolon_append (plain.clear more), ← ahead]
      exact width

omit plain clear in
theorem solid_ahead (solid : ∀ token ∈ after, token.isTrivia = false)
    (tokens : List Token) {rest tail : List Token}
    (behind : gist rest = tail ++ word :: more) :
    ∀ token ∈ gist tokens ++ (tail ++ after), token.isTrivia = false := by
  rw [List.forall_mem_append, List.forall_mem_append]
  refine ⟨solid_gist, ?_, solid⟩
  intro token member
  have among : token ∈ gist rest := behind ▸ List.mem_append_left _ member
  exact solid_gist token among

/-- Members in front of a word are read in the same way, without trivia, in front of
everything that does not continue them. -/
theorem Parsed.transplant (solid : ∀ token ∈ after, token.isTrivia = false)
    {scope : Scope} {nodes : List Node} {tokens rest tail : List Token}
    (parsed : Parsed scope nodes tokens rest) (members : scope = .members)
    (behind : gist rest = tail ++ word :: more) (sound : Sound (gist tokens ++ tail)) :
    ∃ moved, moved.length = nodes.length
      ∧ Parsed .members moved (gist tokens) (tail ++ after) := by
  induction parsed generalizing tail with
  | nil => exact ⟨[], rfl, .nil⟩
  | @leaf scope id kind first head lead core trail tokens rest nodes trivia starts
        inside reads trails others ih =>
      subst members
      have own : gist (lead ++ first :: (core ++ (trail ++ tokens)))
          = first.bare :: (gist core ++ gist tokens) := by
        rw [gist_lead trivia, Token.gist_cons starts, Token.gist_append,
          Token.gist_append, gist_trail trails, List.nil_append]
      rw [own, List.cons_append, List.append_assoc] at sound
      rw [own]
      obtain ⟨moved, length, read⟩ := ih rfl behind (sound.suffix
        ((List.suffix_append (gist core) _).trans (List.suffix_cons _ _)))
      have later : gist (trail ++ (tokens ++ rest))
          = gist tokens ++ tail ++ word :: more := by
        rw [Token.gist_append, Token.gist_append, gist_trail trails, List.nil_append,
          behind, List.append_assoc]
      have next := next_transplant plain clear starts later (by rw [reads]; rfl) sound
      rw [reads, List.append_assoc] at next
      have trailing : Span.trailing (gist tokens ++ (tail ++ after)) = 0 :=
        trailing_solid (solid_ahead solid tokens behind)
      have node : Parsed .members
          _ ([] ++ first.bare :: (gist core ++ ([] ++ gist tokens))) (tail ++ after) :=
            .leaf 0 (List.forall_mem_nil _) starts inside next trailing read
      exact ⟨_, by rw [List.length_cons, length, List.length_cons], node⟩
  | @block scope inner id kind first head lead header opening body closing trail tokens
        rest nodes members final trivia starts inside reads opens within closes others
        ihWithin ih =>
      subst members
      obtain rfl := Item.scope_next_members reads
      have trails : gist trail = [] := closes.trail_trivial
      have own : gist (lead
          ++ first :: (header ++ (opening ++ (body ++ (closing ++ (trail ++ tokens))))))
          = first.bare :: (gist header
            ++ (gist body ++ (gist closing ++ gist tokens))) := by
        rw [gist_lead trivia, Token.gist_cons starts]
        simp only [Token.gist_append, gist_trail opens, trails, List.nil_append]
      have afterClosing :
          gist (tokens ++ rest) = gist tokens ++ tail ++ word :: more := by
        rw [Token.gist_append, behind, List.append_assoc]
      have afterBody : gist (closing ++ (trail ++ (tokens ++ rest)))
          = gist closing ++ (gist tokens ++ tail) ++ word :: more := by
        rw [Token.gist_append, Token.gist_append, trails, List.nil_append, afterClosing,
          List.append_assoc (gist closing)]
      have afterHeader :
          gist (opening ++ (body ++ (closing ++ (trail ++ (tokens ++ rest)))))
          = gist body ++ (gist closing ++ (gist tokens ++ tail)) ++ word :: more := by
        rw [Token.gist_append, Token.gist_append, gist_trail opens, List.nil_append,
          afterBody, List.append_assoc (gist body)]
      rw [own] at sound ⊢
      simp only [List.cons_append, List.append_assoc] at sound
      have soundBody := sound.suffix
        ((List.suffix_append (gist header) _).trans (List.suffix_cons _ _))
      have soundLater := soundBody.suffix
        ((List.suffix_append (gist closing) _).trans (List.suffix_append (gist body) _))
      obtain ⟨inner, -, readBody⟩ := ihWithin rfl afterBody soundBody
      obtain ⟨moved, length, read⟩ := ih rfl behind soundLater
      have next := next_transplant plain clear starts afterHeader
        (by rw [reads]; rfl) sound
      have ahead := solid_ahead solid tokens behind
      have closed := closes.transplant plain clear afterClosing
        (by rwa [List.append_assoc])
      rw [reads] at next
      simp only [List.append_assoc] at next readBody closed
      have trailing : Span.trailing
          (gist body ++ (gist closing ++ (gist tokens ++ (tail ++ after)))) = 0 := by
        apply trailing_solid
        rw [List.forall_mem_append, List.forall_mem_append]
        exact ⟨solid_gist, solid_gist, ahead⟩
      have node : Parsed .members _
          ([] ++ first.bare :: (gist header
            ++ ([] ++ (gist body ++ (gist closing ++ ([] ++ gist tokens))))))
          (tail ++ after) :=
        .block 0 (List.forall_mem_nil _) starts inside next trailing readBody
          closed read
      exact ⟨_, by rw [List.length_cons, length, List.length_cons], node⟩

end Transplant

end Parser

end Lineup
