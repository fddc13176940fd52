import Lineup.Proofs.Seams.Body

/-!
# The tokens of a node

A node without a body keeps its tokens. A node with a body keeps those of its header and
of its closing brace, and between them the tokens of the body change as the body is
rearranged. What stands in front of the node is not touched by that: it is read in front
of the same first token.
-/

namespace Lineup

@[simp] theorem Segment.seamsHoldAll_nil (options : Options) (source : Text)
    (fallback : AccessLevel) (behind : Text) :
    Segment.seamsHoldAll options source fallback behind [] = true := by
  simp [Segment.seamsHoldAll]

@[simp] theorem Segment.seamsHoldAll_text (options : Options) (source : Text)
    (fallback : AccessLevel) (behind content : Text) (segments : List Segment) :
    Segment.seamsHoldAll options source fallback behind (.text content :: segments)
      = Segment.seamsHoldAll options source fallback behind segments := by
  simp [Segment.seamsHoldAll, Segment.seamsHold]

theorem Segment.seamsHoldAll_append (options : Options) (source : Text)
    (fallback : AccessLevel) (behind : Text) (segments others : List Segment) :
    Segment.seamsHoldAll options source fallback behind (segments ++ others) =
      (Segment.seamsHoldAll options source fallback
          (Segment.printAll (Segment.reorganizeAll options source fallback others).1
            ++ behind) segments
        && Segment.seamsHoldAll options source fallback behind others) := by
  induction segments with
  | nil => simp [Segment.seamsHoldAll]
  | cons segment segments ih =>
      simp [Segment.seamsHoldAll, ih, Segment.reorganizeAll_fst, Bool.and_assoc]

theorem Span.semicolon_last {final rest : List Token}
    (ends : Span.semicolon (final ++ rest) = final.length) :
    final = [] ∨ ∃ front semicolon, final = front ++ [semicolon]
      ∧ semicolon.is ";" = true := by
  induction final with
  | nil => exact .inl rfl
  | cons token final ih =>
      rw [List.cons_append, List.length_cons, Span.semicolon] at ends
      right
      split at ends
      · cases width : Span.semicolon (final ++ rest) with
        | zero => simp [width] at ends
        | succ width' =>
            have size : width' + 1 = final.length := by simpa [width] using ends
            rcases ih (width.trans size) with rfl | ⟨front, semicolon, rfl, is⟩
            · cases size
            · exact ⟨token :: front, semicolon, rfl, is⟩
      split at ends
      · rename_i is
        have empty : final = [] := List.eq_nil_of_length_eq_zero (by omega)
        exact ⟨[], token, by rw [empty]; rfl, is⟩
      · omega

namespace Parser.Closes

variable {scope : Scope} {closing trail rest : List Token} {final : List Segment}

/-- A body ends with a bracket, where the text ends, or, without braces, with
nothing. -/
theorem ending (closes : Closes scope closing trail rest final) :
    (∃ front last, closing = front ++ [last] ∧ last.isBracket = true)
      ∨ trail ++ rest = [] ∨
      scope.isBraced = false ∧ trail = [] ∧ ∀ token ∈ rest, token.isTrivia = true := by
  cases closes with
  | @brace lead final trail rest brace _ _ closing ends _ =>
      left
      rcases Span.semicolon_last ends with rfl | ⟨front, semicolon, rfl, is⟩
      · exact ⟨lead, brace, rfl, by simp [Token.isBracket, Token.isAny, closing]⟩
      · exact ⟨lead ++ brace :: front, semicolon,
          by simp, by simp [Token.isBracket, Token.isAny, is]⟩
  | text => exact .inr (.inl rfl)
  | nothing plain trivia => exact .inr (.inr ⟨plain, rfl, trivia⟩)

theorem bracket (closes : Closes scope closing trail rest final)
    (more : ∃ token ∈ rest, token.isTrivia = false) :
    ∃ front last, closing = front ++ [last] ∧ last.isBracket = true := by
  obtain ⟨token, member, significant⟩ := more
  rcases closes.ending with bracket | empty | ⟨-, -, trivia⟩
  · exact bracket
  · rw [(List.append_eq_nil_iff.mp empty).2] at member
    cases member
  · rw [trivia token member] at significant
    cases significant

theorem trails (closes : Closes scope closing trail rest final) :
    trail = [] ∨ Span.trailing (trail ++ rest) = trail.length := by
  cases closes with
  | brace _ _ _ _ trails => exact .inr trails
  | text => exact .inl rfl
  | nothing => exact .inl rfl

theorem print (closes : Closes scope closing trail rest final) (options : Options)
    (source : Text) (fallback : AccessLevel) :
    Segment.printAll (Segment.reorganizeAll options source fallback final).1
      = Token.joined closing := by
  cases closes with
  | brace => simp [Segment.reorganizeAll, Segment.reorganize]
  | text => simp [Segment.reorganizeAll, Segment.reorganize]
  | nothing => simp [Segment.reorganizeAll]

theorem seamsHoldAll (closes : Closes scope closing trail rest final)
    (options : Options) (source : Text) (fallback : AccessLevel) (behind : Text) :
    Segment.seamsHoldAll options source fallback behind final = true := by
  cases closes with
  | brace => simp
  | text => simp
  | nothing => simp

end Parser.Closes

namespace Arrange

open Token (Run Stands Free Plain Replaces Follows joined content)

/-- Tokens at the end of a node stay in front of all that joins the node. -/
theorem Group.Joins.behind {group : Group} {after new : List Token}
    (joins : group.Joins after new) {tokens : List Token} (plain : Plain tokens)
    (run : ∃ lineStart, Run lineStart (tokens ++ (group.trail ++ after)) [])
    (ends : (∃ token ∈ after, token.isTrivia = false) → group.Closed →
      ∃ front final, tokens = front ++ [final] ∧ final.isBracket = true) :
    Replaces (tokens ++ (group.trail ++ after)) (tokens ++ new) := by
  cases joins with
  | replaces replaces => exact replaces.prepend plain
  | closed closed plainNew follows more =>
      obtain ⟨front, final, rfl, bracket⟩ := ends more closed
      refine follows.shut plainNew (fun absent => ?_)
        (by simp [Token.isShut, bracket]) plain
      obtain ⟨lineStart, run⟩ := run
      have empty := (Token.run_append.mp run).2.eq_nil absent
      obtain ⟨token, member, -⟩ := more
      exact List.ne_nil_of_mem member (List.append_eq_nil_iff.mp empty).2

theorem Spells.leaf {options : Options} {source : Text} {info : NodeInfo}
    {first : Token} {lead core trail after : List Token}
    (leading : info.leading = joined lead) (trailing : info.trailing = joined trail)
    (trivia : ∀ token ∈ lead, token.isTrivia = true) (starts : first.isTrivia = false)
    (trails : Span.trailing (trail ++ after) = trail.length)
    (plain : Plain (lead ++ first :: (core ++ (trail ++ after))))
    (run : ∃ lineStart,
      Run lineStart (lead ++ first :: (core ++ (trail ++ after))) []) :
    Spells options source after (.mk info [.text (joined (first :: core))])
      ⟨lead, first :: core, first :: core, trail⟩ := by
  have plainCore : Plain (first :: core) := by
    have whole := plain.right
    rw [← List.cons_append] at whole
    exact whole.left
  have runCore : ∃ lineStart, Run lineStart (first :: core ++ (trail ++ after)) [] := by
    obtain ⟨lineStart, run⟩ := run
    exact ⟨_, (Token.run_append.mp run).2⟩
  have replaces (new : List Token)
      (joins : Group.Joins ⟨lead, first :: core, first :: core, trail⟩ after new) :
      Replaces (first :: core ++ (trail ++ after)) (first :: core ++ new) := by
    refine joins.behind plainCore runCore fun _ closed => ?_
    obtain ⟨front, inner, ends, -, bracket⟩ := closed
    exact ⟨front, _, ends, bracket⟩
  refine { leading, trailing, spelled := by simp [Node.segments], printed := ?_,
           repeats := .refl _ _, trivia, starts :=
             ⟨first, core, core, rfl, rfl, starts⟩, trails := .inr trails,
           plain := by simpa [Group.source] using plain, kept := plainCore,
           run := by simpa [Group.source] using run, seams := fun new joins => ?_,
           replaces := fun new joins _ => replaces new joins }
  · simp [Node.reorganize, Node.segments, Segment.reorganizeAll, Segment.reorganize]
  · obtain ⟨lineStart, runCore⟩ := runCore
    have stands := (replaces new joins).follows lineStart runCore
    simpa [Node.seamsHold] using
      stands.starting (replaces new joins).plain

/-- The tokens of a body that is rearranged replace those from before, with the opening
bracket and the trivia behind it in front. -/
theorem Lays.behind {options : Options} {source : Text} {fallback : AccessLevel}
    {rest opening front body out new : List Token} {segments : List Segment}
    {final : Token} (lays : Lays options source fallback rest segments body out)
    (bracket : final.isBracket = true)
    (opens : Span.trailing (opening ++ (body ++ rest)) = opening.length)
    (plain : Plain (front ++ [final])) (plainOpening : Plain opening)
    (run : ∃ lineStart,
      Run lineStart (front ++ [final] ++ (opening ++ (body ++ rest))) [])
    (replaces : Replaces rest new) (stands : Stands true (out ++ new) []) :
    Replaces (front ++ [final] ++ (opening ++ (body ++ rest)))
      (front ++ [final] ++ (opening ++ (out ++ new))) := by
  obtain ⟨lineStart, run⟩ := run
  have runOpening := (Token.run_append.mp run).2
  have follows : Follows (opening ++ (body ++ rest)) (opening ++ (out ++ new)) := by
    intro lineStart run
    by_cases absent : body ++ rest = []
    · obtain ⟨noBody, noRest⟩ := List.append_eq_nil_iff.mp absent
      rw [absent] at run
      rw [lays.empty noBody, replaces.empty noRest]
      exact run.stands
    · obtain ⟨free, -⟩ := Span.trailing_free opens run absent
      exact Token.stands_append.mpr ⟨free _ _, lays.follows new replaces stands _
        (Token.run_append.mp run).2⟩
  by_cases absent : joined (opening ++ (body ++ rest)) = []
  · have empty := runOpening.eq_nil absent
    simp only [List.append_eq_nil_iff] at empty
    obtain ⟨rfl, rfl, rfl⟩ := empty
    rw [lays.empty rfl, replaces.empty rfl]
    exact .refl (plain.append plainOpening)
  · exact follows.shut (plainOpening.append (lays.plain.append replaces.plain)) absent
      (by simp [Token.isShut, bracket]) plain

theorem Spells.block {options : Options} {source : Text} {info : NodeInfo}
    {scope : Parser.Scope} {first : Token}
    {lead header opening body out closing trail after : List Token}
    {segments final : List Segment} (leading : info.leading = joined lead)
    (trailing : info.trailing = joined trail)
    (trivia : ∀ token ∈ lead, token.isTrivia = true) (starts : first.isTrivia = false)
    (bracket : ∃ front last, first :: header = front ++ [last] ∧ last.isBracket = true)
    (opens : Span.trailing (opening ++ (body ++ (closing ++ (trail ++ after))))
      = opening.length)
    (text : Segment.printAll segments = joined body)
    (lays : Lays options source (AccessLevel.default info.kind)
      (closing ++ (trail ++ after)) segments body out)
    (closes : Parser.Closes scope closing trail after final)
    (plain : Plain (lead
      ++ (first :: header ++ (opening ++ (body ++ (closing ++ (trail ++ after)))))))
    (run : ∃ lineStart, Run lineStart
      (lead ++ (first :: header ++ (opening ++ (body ++ (closing ++ (trail ++ after))))))
      []) :
    Spells options source after
      (.mk info (.text (joined (first :: header) ++ joined opening) :: segments
        ++ final))
      ⟨lead, first :: header ++ (opening ++ (body ++ closing)),
        first :: header ++ (opening ++ (out ++ closing)), trail⟩ := by
  have plainHeader := plain.right.left
  have plainOpening := plain.right.right.left
  have plainClosing := plain.right.right.right.right.left
  obtain ⟨lineStart, run⟩ := run
  have runCore := (Token.run_append.mp run).2
  have runClosing :=
    (Token.run_append.mp (Token.run_append.mp (Token.run_append.mp runCore).2).2).2
  have closed {core inner new : List Token}
      (joins : Group.Joins ⟨lead, core, inner, trail⟩ after new) :
      Replaces (closing ++ (trail ++ after)) (closing ++ new) :=
    joins.behind plainClosing ⟨_, runClosing⟩ fun more _ => closes.bracket more
  have replacing {core inner new : List Token}
      (joins : Group.Joins ⟨lead, core, inner, trail⟩ after new)
      (stands : Stands true (out ++ (closing ++ new)) []) :
      Replaces (first :: header ++ (opening ++ (body ++ (closing ++ (trail ++ after)))))
        (first :: header ++ (opening ++ (out ++ (closing ++ new)))) := by
    obtain ⟨front, last, spelled, bracket⟩ := bracket
    rw [spelled] at plainHeader runCore ⊢
    exact lays.behind bracket opens plainHeader plainOpening ⟨_, runCore⟩
      (closed joins) stands
  have later {core inner new : List Token}
      (joins : Group.Joins ⟨lead, core, inner, trail⟩ after new)
      (stands :
        Stands true (first :: header ++ (opening ++ (out ++ (closing ++ new)))) []) :
      Stands true (out ++ (closing ++ new)) [] :=
    lays.later (closed joins) (Token.stands_append.mp stands).2
  have printedClosing := closes.print options source (AccessLevel.default info.kind)
  refine { leading, trailing, spelled := ?_, printed := ?_, repeats := ?_, trivia,
           starts := ⟨first, _, _, rfl, rfl, starts⟩, trails := closes.trails,
           plain := by simpa [Group.source] using plain,
           kept := plainHeader.append
             (plainOpening.append (lays.plain.append plainClosing)),
           run := ⟨lineStart, by simpa [Group.source] using run⟩, seams :=
             fun new joins => ?_,
           replaces := fun new joins stands => ?_ }
  · simp [Node.segments, text, closes.printAll]
  · have printedBody := lays.printed
    rw [Segment.reorganizeAll_fst] at printedBody printedClosing
    simp [Node.reorganize, Node.segments, Segment.reorganizeAll_fst, Segment.reorganize,
      printedBody, printedClosing]
  · apply (((lays.repeats.append_right _).append_left _).append_left _).imp
    rw [Node.sectionsHold, List.cons_append, Segment.sectionsHoldAll_text,
      Segment.sectionsHoldAll_append, Bool.and_eq_true]
    exact And.left
  · have whole : first :: header ++ (opening ++ (out ++ closing)) ++ new
        = first :: header ++ (opening ++ (out ++ (closing ++ new))) := by simp
    rw [whole, Node.seamsHold, List.cons_append, Segment.seamsHoldAll_text,
      Segment.seamsHoldAll_append, printedClosing, closes.seamsHoldAll, Bool.and_true,
      ← Token.joined_append, lays.seams _ (closed joins)]
    refine ⟨fun stands => ?_, later joins⟩
    have replaces := replacing joins stands
    exact (replaces.follows _ runCore).starting replaces.plain
  · simp only [List.append_assoc] at stands ⊢
    exact replacing joins (later joins stands)

end Arrange

end Lineup
