import HighlightGraph.Proofs.Identifier
import Mathlib.Data.List.Basic
/-!
# What a normal form keeps

The normal form of a text is made of its words, with one underscore between two of them and one at
either end where the text begins or ends outside a word. It tells just that much of the text.
-/

namespace HighlightGraph.Identifier

/-- The words of a text: the longest runs of characters that identifiers keep. -/
def words (cs : List Char) : List (List Char) :=
  (cs.splitOnP fun c => !isWordChar c).filter fun word => !word.isEmpty

def beginsOutside (cs : List Char) : Bool := cs.head?.any fun c => !isWordChar c

def endsOutside (cs : List Char) : Bool := cs.getLast?.any fun c => !isWordChar c

/-- Whether two texts have the same words, and agree on beginning and on ending outside them. -/
def AlikeInWords (cs ds : List Char) : Prop :=
  words cs = words ds ∧ beginsOutside cs = beginsOutside ds ∧ endsOutside cs = endsOutside ds

instance (cs ds : List Char) : Decidable (AlikeInWords cs ds) :=
  inferInstanceAs (Decidable (_ ∧ _))

def lowered (name : Value) : List Char := Text.lower (nameText name).toList

/-! ## Words -/

theorem words_cons_outside {c : Char} (hc : isWordChar c = false) (cs : List Char) :
    words (c :: cs) = words cs := by
  rw [words, List.splitOnP_cons_eq_if_modifyHead, if_pos (by simp [hc])]
  rfl

theorem words_singleton {c : Char} (hc : isWordChar c = true) : words [c] = [[c]] := by
  rw [words, List.splitOnP_eq_singleton (by simp [hc])]
  rfl

theorem words_cons_cons_outside {c d : Char} (hc : isWordChar c = true)
    (hd : isWordChar d = false) (cs : List Char) : words (c :: d :: cs) = [c] :: words cs := by
  rw [words, List.splitOnP_cons_eq_if_modifyHead, if_neg (by simp [hc]),
    List.splitOnP_cons_eq_if_modifyHead, if_pos (by simp [hd])]
  rfl

/-- A character before a word belongs to it. -/
theorem words_cons_cons_inside {c d : Char} (hc : isWordChar c = true) (hd : isWordChar d = true)
    (cs : List Char) :
    ∃ word rest, words (d :: cs) = word :: rest ∧ words (c :: d :: cs) = (c :: word) :: rest := by
  obtain ⟨piece, pieces, hpieces⟩ :=
    List.exists_cons_of_ne_nil (List.splitOnP_ne_nil (fun c => !isWordChar c) cs)
  refine ⟨d :: piece, pieces.filter fun word => !word.isEmpty, ?_, ?_⟩
  · rw [words, List.splitOnP_cons_eq_if_modifyHead, if_neg (by simp [hd]), hpieces]
    rfl
  · rw [words, List.splitOnP_cons_eq_if_modifyHead, if_neg (by simp [hc]),
      List.splitOnP_cons_eq_if_modifyHead, if_neg (by simp [hd]), hpieces]
    rfl

/-! ## The normal form as joined pieces -/

/-- What stands between the underscores of a normal form, once the first one is written: the words,
and nothing at an end outside of them. -/
def laterPieces (cs : List Char) : List (List Char) :=
  words cs ++ if endsOutside cs then [[]] else []

def pieces (cs : List Char) : List (List Char) :=
  (if beginsOutside cs then [[]] else []) ++ laterPieces cs

theorem endsOutside_cons_cons (c d : Char) (cs : List Char) :
    endsOutside (c :: d :: cs) = endsOutside (d :: cs) := by
  rw [endsOutside, endsOutside, List.getLast?_cons_cons]

theorem pieces_of_outside {c : Char} (hc : isWordChar c = false) (cs : List Char) :
    pieces (c :: cs) = [] :: laterPieces (c :: cs) := by
  have hbegins : beginsOutside (c :: cs) = true := by simp [beginsOutside, hc]
  rw [pieces, if_pos hbegins, List.singleton_append]

theorem pieces_of_inside {c : Char} (hc : isWordChar c = true) (cs : List Char) :
    pieces (c :: cs) = laterPieces (c :: cs) := by
  have hbegins : ¬ beginsOutside (c :: cs) = true := by simp [beginsOutside, hc]
  rw [pieces, if_neg hbegins, List.nil_append]

theorem laterPieces_singleton_outside {c : Char} (hc : isWordChar c = false) :
    laterPieces [c] = [[]] := by
  have hends : endsOutside [c] = true := by simp [endsOutside, hc]
  rw [laterPieces, words_cons_outside hc, if_pos hends]
  rfl

theorem laterPieces_singleton_inside {c : Char} (hc : isWordChar c = true) :
    laterPieces [c] = [[c]] := by
  have hends : ¬ endsOutside [c] = true := by simp [endsOutside, hc]
  rw [laterPieces, words_singleton hc, if_neg hends, List.append_nil]

theorem laterPieces_cons_outside {c : Char} (hc : isWordChar c = false) (d : Char)
    (cs : List Char) : laterPieces (c :: d :: cs) = laterPieces (d :: cs) := by
  rw [laterPieces, laterPieces, words_cons_outside hc, endsOutside_cons_cons]

theorem laterPieces_ne_nil (c : Char) (cs : List Char) : laterPieces (c :: cs) ≠ [] := by
  induction cs generalizing c with
  | nil =>
      cases hc : isWordChar c with
      | false => simp [laterPieces_singleton_outside hc]
      | true => simp [laterPieces_singleton_inside hc]
  | cons d cs ih =>
      cases hc : isWordChar c with
      | false =>
          rw [laterPieces_cons_outside hc]
          exact ih d
      | true =>
          cases hd : isWordChar d with
          | false => simp [laterPieces, words_cons_cons_outside hc hd]
          | true =>
              obtain ⟨word, rest, -, hwords⟩ := words_cons_cons_inside hc hd cs
              simp [laterPieces, hwords]

/-- A character of a word goes into the first piece of what follows it. -/
theorem laterPieces_cons_inside {c : Char} (hc : isWordChar c = true) (d : Char)
    (cs : List Char) :
    ∃ piece rest, pieces (d :: cs) = piece :: rest ∧
      laterPieces (c :: d :: cs) = (c :: piece) :: rest := by
  cases hd : isWordChar d with
  | false =>
      refine ⟨[], laterPieces (d :: cs), pieces_of_outside hd cs, ?_⟩
      rw [laterPieces, laterPieces, words_cons_cons_outside hc hd, words_cons_outside hd,
        endsOutside_cons_cons, List.cons_append]
  | true =>
      obtain ⟨word, rest, hword, hlonger⟩ := words_cons_cons_inside hc hd cs
      refine ⟨word, rest ++ if endsOutside (d :: cs) then [[]] else [], ?_, ?_⟩
      · rw [pieces_of_inside hd, laterPieces, hword, List.cons_append]
      · rw [laterPieces, hlonger, endsOutside_cons_cons, List.cons_append]

theorem collapse_eq_intercalate (inRun : Bool) (cs : List Char) :
    collapse inRun cs = ['_'].intercalate (if inRun then laterPieces cs else pieces cs) := by
  induction cs generalizing inRun with
  | nil => cases inRun <;> rfl
  | cons c rest ih =>
      rw [collapse]
      cases hc : isWordChar c with
      | true =>
          have hpieces : (if inRun then laterPieces (c :: rest) else pieces (c :: rest)) =
              laterPieces (c :: rest) := by
            rw [pieces_of_inside hc, ite_self]
          rw [if_pos rfl, hpieces, ih, if_neg Bool.false_ne_true]
          cases rest with
          | nil =>
              rw [laterPieces_singleton_inside hc]
              rfl
          | cons d cs =>
              obtain ⟨piece, more, hd, hlonger⟩ := laterPieces_cons_inside hc d cs
              rw [hd, hlonger, List.intercalate_cons_cons_left]
      | false =>
          rw [if_neg Bool.false_ne_true, ih, if_pos rfl]
          cases rest with
          | nil =>
              rw [pieces_of_outside hc, laterPieces_singleton_outside hc]
              cases inRun <;> rfl
          | cons d cs =>
              rw [pieces_of_outside hc, laterPieces_cons_outside hc]
              cases inRun with
              | true => rfl
              | false =>
                  rw [if_neg Bool.false_ne_true, if_neg Bool.false_ne_true,
                    List.intercalate_cons_of_ne_nil (laterPieces_ne_nil d cs)]
                  rfl

/-! ## What can be told from a normal form -/

theorem beginsOutside_collapse (cs : List Char) :
    beginsOutside (collapse false cs) = beginsOutside cs := by
  cases cs with
  | nil => rfl
  | cons c rest =>
      rw [collapse]
      split
      · rfl
      · next hc =>
        rw [Bool.not_eq_true] at hc
        simp [beginsOutside, hc]

theorem words_collapse (inRun : Bool) (cs : List Char) : words (collapse inRun cs) = words cs := by
  induction cs generalizing inRun with
  | nil => rfl
  | cons c rest ih =>
      rw [collapse]
      cases hc : isWordChar c with
      | false =>
          rw [if_neg Bool.false_ne_true, words_cons_outside hc]
          cases inRun with
          | true => exact ih true
          | false => exact (words_cons_outside isWordChar_mark _).trans (ih true)
      | true =>
          rw [if_pos rfl]
          cases rest with
          | nil => rfl
          | cons d cs =>
              have hrest := ih false
              rw [collapse] at hrest ⊢
              cases hd : isWordChar d with
              | false =>
                  rw [hd, if_neg Bool.false_ne_true, if_neg Bool.false_ne_true,
                    words_cons_outside isWordChar_mark, words_cons_outside hd] at hrest
                  rw [if_neg Bool.false_ne_true, if_neg Bool.false_ne_true,
                    words_cons_cons_outside hc isWordChar_mark, words_cons_cons_outside hc hd, hrest]
              | true =>
                  rw [hd, if_pos rfl] at hrest
                  rw [if_pos rfl]
                  obtain ⟨word, more, hword, hlonger⟩ :=
                    words_cons_cons_inside hc hd (collapse false cs)
                  obtain ⟨word', more', hword', hlonger'⟩ := words_cons_cons_inside hc hd cs
                  rw [hword, hword'] at hrest
                  cases hrest
                  rw [hlonger, hlonger']

theorem endsOutside_congr {c d : Char} (hc : isWordChar c = false) (hd : isWordChar d = false)
    (cs : List Char) : endsOutside (c :: cs) = endsOutside (d :: cs) := by
  cases cs with
  | nil => simp [endsOutside, hc, hd]
  | cons e cs => rw [endsOutside_cons_cons, endsOutside_cons_cons]

/-- A character that stands before a text keeps its end from being swallowed. -/
theorem endsOutside_cons_collapse {c : Char} {inRun : Bool}
    (h : inRun = true → isWordChar c = false) (cs : List Char) :
    endsOutside (c :: collapse inRun cs) = endsOutside (c :: cs) := by
  induction cs generalizing c inRun with
  | nil => rfl
  | cons d rest ih =>
      rw [collapse, endsOutside_cons_cons]
      cases hd : isWordChar d with
      | true =>
          rw [if_pos rfl, endsOutside_cons_cons]
          exact ih fun hin => Bool.noConfusion hin
      | false =>
          rw [if_neg Bool.false_ne_true]
          cases inRun with
          | true =>
              rw [if_pos rfl, ih h]
              exact endsOutside_congr (h rfl) hd rest
          | false =>
              rw [if_neg Bool.false_ne_true, endsOutside_cons_cons, ih fun _ => isWordChar_mark]
              exact endsOutside_congr isWordChar_mark hd rest

theorem endsOutside_collapse (cs : List Char) :
    endsOutside (collapse false cs) = endsOutside cs := by
  cases cs with
  | nil => rfl
  | cons c rest =>
      rw [collapse]
      cases hc : isWordChar c with
      | true =>
          rw [if_pos rfl]
          exact endsOutside_cons_collapse (fun h => absurd h Bool.false_ne_true) rest
      | false =>
          rw [if_neg Bool.false_ne_true, if_neg Bool.false_ne_true,
            endsOutside_cons_collapse (fun _ => isWordChar_mark)]
          exact endsOutside_congr isWordChar_mark hc rest

/-- Two texts have one normal form if and only if they are alike in their words. -/
theorem collapse_eq_iff {cs ds : List Char} :
    collapse false cs = collapse false ds ↔ AlikeInWords cs ds := by
  constructor
  · intro h
    refine ⟨?_, ?_, ?_⟩
    · rw [← words_collapse false cs, h, words_collapse]
    · rw [← beginsOutside_collapse cs, h, beginsOutside_collapse]
    · rw [← endsOutside_collapse cs, h, endsOutside_collapse]
  · rintro ⟨hwords, hbegins, hends⟩
    rw [collapse_eq_intercalate, collapse_eq_intercalate, pieces, pieces, laterPieces, laterPieces,
      hwords, hbegins, hends]

theorem ofName_eq_iff {name other : Value} :
    ofName name = ofName other ↔ AlikeInWords (lowered name) (lowered other) := by
  rw [← collapse_eq_iff, ofName, ofName, normalForm, normalForm, String.ofList_inj]
  rfl

theorem ofNode_eq_iff {name other : Value} :
    ofNode name = ofNode other ↔ AlikeInWords (lowered name) (lowered other) := by
  rw [ofNode, ofNode, String.append_right_inj, ofName_eq_iff]

theorem ofGroup_eq_iff {name other : Value} {boxed : Bool} :
    ofGroup name boxed = ofGroup other boxed ↔ AlikeInWords (lowered name) (lowered other) := by
  rw [ofGroup, ofGroup, String.append_right_inj, ofName_eq_iff]

end HighlightGraph.Identifier
