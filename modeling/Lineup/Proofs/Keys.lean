import Lineup.Member
import Lineup.Proofs.Syntax.Form

/-!
# What decides the place of a member

The place of a member depends on what it stands for and on the kinds and the texts of
its tokens, and not on where it stands in a source text.
-/

namespace Lineup

namespace Member

open Token (bare)

/-- The reading without the place of the previous token. -/
def Reading.bare (reading : Reading) : Reading :=
  { reading with previous := reading.previous.map Token.bare }

theorem Reading.follows_bare (reading : Reading) (spelling : String) :
    reading.bare.follows spelling = reading.follows spelling := by
  simp [Reading.follows, Reading.bare, Option.any_map]

theorem Reading.followsIdentifier_bare (reading : Reading) :
    reading.bare.followsIdentifier = reading.followsIdentifier := by
  simp [Reading.followsIdentifier, Reading.bare, Option.any_map]

theorem shapeFrom_bare (form : Form) (reading : Reading) (tokens : List Token) :
    shapeFrom form reading.bare (tokens.map bare) = shapeFrom form reading tokens := by
  induction tokens generalizing reading with
  | nil => rfl
  | cons token tokens ih =>
      have outside : reading.bare.isOutside = reading.isOutside := rfl
      -- Behind the token the readings are the same again, up to the places of tokens.
      have next (parens brackets angles : Nat) (name : Text) :
          shapeFrom form ⟨parens, brackets, angles, name, some token.bare⟩
            (tokens.map bare)
            = shapeFrom form ⟨parens, brackets, angles, name, some token⟩ tokens :=
        ih ⟨parens, brackets, angles, name, some token⟩
      simp only [List.map_cons, shapeFrom, Token.is_bare, Token.isIdentifier_bare,
        outside, Reading.follows_bare, Reading.followsIdentifier_bare, List.head?_map,
        Option.any_map, next]
      rfl

theorem shape_bare (isConstant : Bool) (tokens : List Token) :
    shape isConstant (tokens.map bare) = shape isConstant tokens := by
  cases tokens with
  | nil => rfl
  | cons first rest =>
      have later (form : Form) :
          shapeFrom form {} (first.bare :: rest.map bare)
            = shapeFrom form {} (first :: rest) :=
        shapeFrom_bare form {} (first :: rest)
      simp only [List.map_cons, shape, Token.is_bare, Token.isIdentifier_bare,
        List.head?_map, Option.any_map, later]
      cases rest with
      | nil => rfl
      | cons name rest => rfl

/-- What decides the place of a member does not depend on where it stands. -/
theorem classify_congr (fallback : AccessLevel) {node other : Node}
    (kind : other.kind = node.kind)
    (head : other.head.map Token.face = node.head.map Token.face) :
    classify fallback other = classify fallback node := by
  have declared : (Span.skipAttributes 0 other.head).map bare
      = (Span.skipAttributes 0 node.head).map bare := by
    rw [← Span.skipAttributes_bare, ← Span.skipAttributes_bare,
      Token.map_bare_iff.mpr head]
  have bares (tokens : List Token) (word : String) :
      ((tokens.map bare).takeWhile isModifier).any (fun token => token.is word)
        = (tokens.takeWhile isModifier).any fun token => token.is word := by
    rw [List.takeWhile_map, List.any_map]
    rfl
  have has (word : String) := (bares (Span.skipAttributes 0 other.head) word).symm
  have shapes (tokens : List Token) (isConstant : Bool) :
      shape isConstant ((tokens.map bare).dropWhile isModifier)
        = shape isConstant (tokens.dropWhile isModifier) := by
    rw [List.dropWhile_map, shape_bare]
    rfl
  have shown (isConstant : Bool) :=
    (shapes (Span.skipAttributes 0 other.head) isConstant).symm
  simp only [declared, bares, shapes] at has shown
  simp only [classify, kind, has, shown]

end Member

end Lineup
