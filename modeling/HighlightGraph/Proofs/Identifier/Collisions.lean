import HighlightGraph.Proofs.Identifier.NormalForm
/-!
# Names that collide

Two names share their identifiers if and only if their lower-cased texts are alike in their words.
The lower case of a capital sigma depends on its place, as another small sigma ends a word; but
both are outside the words of a name, so that names are alike whichever of them is written.
-/

namespace HighlightGraph

namespace Text

/-- The lower case of a text in which capital sigmas at the ends of words become the final small
sigma. `endsWord` tells from the characters before a sigma, the nearest first, and from those after
it whether it is one of them. -/
def lowerWith (endsWord : List Char → List Char → Bool) (before : List Char) :
    List Char → List Char
  | [] => []
  | c :: rest =>
    (if c = 'Σ' && endsWord before rest then ['ς'] else lowerChar c) ++
      lowerWith endsWord (c :: before) rest

end Text

namespace Identifier

def loweredWith (endsWord : List Char → List Char → Bool) (name : Value) : List Char :=
  Text.lowerWith endsWord [] (nameText name).toList

/-! ## Characters that make no difference -/

/-- What a normal form can tell of a character: which one it is, if it belongs to a word. -/
def seen (c : Char) : Char := if isWordChar c then c else '_'

@[simp] theorem isWordChar_seen (c : Char) : isWordChar (seen c) = isWordChar c := by
  rw [seen]
  split
  · rfl
  · next hc => rw [isWordChar_mark, Bool.eq_false_iff.2 hc]

theorem collapse_map_seen (inRun : Bool) (cs : List Char) :
    collapse inRun (cs.map seen) = collapse inRun cs := by
  induction cs generalizing inRun with
  | nil => rfl
  | cons c rest ih =>
      rw [List.map_cons, collapse, collapse, isWordChar_seen, ih, ih]
      split
      · next hc => rw [seen, if_pos hc]
      · rfl

theorem map_seen_lowerWith (endsWord : List Char → List Char → Bool) (before cs : List Char) :
    (Text.lowerWith endsWord before cs).map seen = (Text.lower cs).map seen := by
  induction cs generalizing before with
  | nil => rfl
  | cons c rest ih =>
      rw [Text.lowerWith, Text.lower_cons, List.map_append, List.map_append, ih]
      split
      · next hfinal =>
        rw [Bool.and_eq_true, decide_eq_true_eq] at hfinal
        rw [hfinal.1]
        -- Neither of the two small sigmas is a character of a word.
        have hsigmas : ['ς'].map seen = (Text.lowerChar 'Σ').map seen := by decide
        rw [hsigmas]
      · rfl

theorem collapse_loweredWith (endsWord : List Char → List Char → Bool) (inRun : Bool)
    (name : Value) : collapse inRun (loweredWith endsWord name) = collapse inRun (lowered name) := by
  rw [← collapse_map_seen, loweredWith, map_seen_lowerWith, collapse_map_seen, lowered]

/-! ## Collisions -/

/-- Two names are names of one node if and only if their lower-cased texts have the same words and
agree on beginning and on ending outside of them; and then they are names of one subgraph, boxed or
not. This holds whichever capital sigmas are taken for the ends of words. -/
theorem identifiers_eq_iff (name other : Value) :
    (ofNode name = ofNode other ↔ AlikeInWords (lowered name) (lowered other)) ∧
      (∀ boxed, ofGroup name boxed = ofGroup other boxed ↔
        AlikeInWords (lowered name) (lowered other)) ∧
      ∀ endsWord, AlikeInWords (loweredWith endsWord name) (loweredWith endsWord other) ↔
        AlikeInWords (lowered name) (lowered other) := by
  refine ⟨ofNode_eq_iff, fun _ => ofGroup_eq_iff, fun endsWord => ?_⟩
  rw [← collapse_eq_iff, ← collapse_eq_iff, collapse_loweredWith, collapse_loweredWith]

end Identifier

end HighlightGraph
