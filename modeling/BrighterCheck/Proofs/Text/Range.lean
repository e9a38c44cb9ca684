import BrighterCheck.Text.Range
import Mathlib.Order.Lattice
import Mathlib.Tactic.Lemma
import Mathlib.Tactic.Order

/-!
# The order of positions and the covering of ranges

Positions are linearly ordered, and ranges are ordered by covering: `Range.merge` is the least range
that covers two, and `Range.bounding` the least one that covers all ranges of a list. Ranges that
stand behind one another in a source lie between two positions.
-/

namespace BrighterCheck

instance : LinearOrder Position where
  le_refl := Position.le_refl
  le_trans _ _ _ := Position.le_trans
  le_antisymm _ _ := Position.le_antisymm
  le_total := Position.le_total
  toDecidableLE := fun p q => inferInstanceAs (Decidable (p ≤ q))
  min_def _ _ := rfl
  max_def _ _ := rfl

namespace Range

variable {r s t : Range} {rs : List (Option Range)}

lemma merge_self (r : Range) : r.merge r = r := by
  simp [merge]

/-- What a merged range covers already adds nothing to it. -/
lemma merge_merge_self (r s : Range) : r.merge (r.merge s) = r.merge s := by
  simp [merge]

lemma merge_assoc (r s t : Range) : (r.merge s).merge t = r.merge (s.merge t) := by
  simp [merge, min_assoc, max_assoc]

/-- A range in front of one that starts with it adds nothing, whatever else is merged. -/
lemma bounding_merge_merge (o : Option Range) (r s : Range) :
    bounding [o, some r, some (r.merge s)] = bounding [o, some (r.merge s)] := by
  cases o with
  | none => exact congrArg some (merge_merge_self r s)
  | some t =>
    refine congrArg some ?_
    show (t.merge r).merge (r.merge s) = t.merge (r.merge s)
    rw [merge_assoc, merge_merge_self]

lemma Covers.refl (r : Range) : r.Covers r :=
  ⟨le_refl _, le_refl _⟩

lemma Covers.trans (h : r.Covers s) (h' : s.Covers t) : r.Covers t :=
  ⟨h.1.trans h'.1, h'.2.trans h.2⟩

/-- Merging gives the least range that covers both. -/
lemma Covers.merge (h : r.Covers s) (h' : r.Covers t) : r.Covers (s.merge t) :=
  ⟨le_min h.1 h'.1, max_le h.2 h'.2⟩

lemma foldl_merge_covers {acc : Option Range}
    (h : some r ∈ rs ∨ ∃ a, acc = some a ∧ a.Covers r) :
    ∃ b, rs.foldl (Option.merge Range.merge) acc = some b ∧ b.Covers r := by
  induction rs generalizing acc with
  | nil =>
    obtain ⟨a, rfl, ha⟩ := h.resolve_left (List.not_mem_nil)
    exact ⟨a, rfl, ha⟩
  | cons o rs ih =>
    refine ih ?_
    rcases h with h | ⟨a, rfl, ha⟩
    · rcases List.mem_cons.1 h with rfl | h
      · cases acc with
        | none => exact .inr ⟨r, rfl, .refl r⟩
        | some a => exact .inr ⟨a.merge r, rfl, covers_merge_right a r⟩
      · exact .inl h
    · cases o with
      | none => exact .inr ⟨a, rfl, ha⟩
      | some b => exact .inr ⟨a.merge b, rfl, (covers_merge_left a b).trans ha⟩

/-- A bounding range is there as soon as one range is, and covers it. -/
lemma exists_bounding_covers (h : some r ∈ rs) : ∃ b, bounding rs = some b ∧ b.Covers r :=
  foldl_merge_covers (.inl h)

/-- The bounding range covers every range of the list. -/
lemma bounding_covers (hb : bounding rs = some t) (h : some r ∈ rs) : t.Covers r := by
  obtain ⟨b, hb', hc⟩ := exists_bounding_covers h
  cases hb.symm.trans hb'
  exact hc

/-- A property of ranges that merging keeps. -/
def MergeClosed (P : Range → Prop) : Prop :=
  ∀ ⦃r s⦄, P r → P s → P (r.merge s)

/-- What holds of all ranges of a list and is kept by merging holds of the bounding range. -/
lemma MergeClosed.bounding {P : Range → Prop} (hm : MergeClosed P)
    (h : ∀ r, some r ∈ rs → P r) (hb : bounding rs = some t) : P t := by
  have key : ∀ acc : Option Range, (∀ a, acc = some a → P a) →
      ∀ b, rs.foldl (Option.merge Range.merge) acc = some b → P b := by
    clear hb
    induction rs with
    | nil => exact fun _ ha b hb => ha b hb
    | cons o rs ih =>
      intro acc ha
      refine ih (fun r hr => h r (.tail _ hr)) _ fun a he => ?_
      cases acc with
      | none =>
        cases o with
        | none => cases he
        | some r => cases he; exact h _ (.head _)
      | some r =>
        cases o with
        | none => cases he; exact ha _ rfl
        | some s => cases he; exact hm (ha _ rfl) (h _ (.head _))
  exact key none nofun t hb

/-- A range that is not empty lies between two positions. -/
structure Within (p : Position) (r : Range) (q : Position) : Prop where
  le_start : p ≤ r.start
  start_lt : r.start < r.finish
  finish_le : r.finish ≤ q

variable {p q u : Position}

lemma Within.merge (h : Within p r q) (h' : Within p s q) : Within p (r.merge s) q where
  le_start := le_min h.le_start h'.le_start
  start_lt := (min_le_left _ _).trans_lt (h.start_lt.trans_le (le_max_left _ _))
  finish_le := max_le h.finish_le h'.finish_le

lemma Within.mono {p' q' : Position} (h : Within p r q) (hp : p' ≤ p) (hq : q ≤ q') :
    Within p' r q' :=
  ⟨hp.trans h.le_start, h.start_lt, h.finish_le.trans hq⟩

lemma mergeClosed_within (p q : Position) : MergeClosed (Within p · q) :=
  fun _ _ => .merge

/-- Ranges between two positions, each behind the one before it. -/
inductive Between : Position → List Range → Position → Prop where
  | nil {p q : Position} : p ≤ q → Between p [] q
  | cons {p q : Position} {r : Range} {rs : List Range} :
      p ≤ r.start → r.start < r.finish → Between r.finish rs q → Between p (r :: rs) q

namespace Between

variable {rs ss : List Range}

lemma le (h : Between p rs q) : p ≤ q := by
  induction h with
  | nil h => exact h
  | cons hp hr _ ih => exact hp.trans (hr.le.trans ih)

lemma mono_left (h : Between p rs q) (hu : u ≤ p) : Between u rs q := by
  cases h with
  | nil h => exact .nil (hu.trans h)
  | cons hp hr h => exact .cons (hu.trans hp) hr h

lemma append (h : Between p rs u) (h' : Between u ss q) : Between p (rs ++ ss) q := by
  induction h with
  | nil h => exact h'.mono_left h
  | cons hp hr _ ih => exact .cons hp hr (ih h')

lemma split (h : Between p (rs ++ ss) q) : ∃ u, Between p rs u ∧ Between u ss q := by
  induction rs generalizing p with
  | nil => exact ⟨p, .nil (le_refl p), h⟩
  | cons r rs ih =>
    cases h with
    | cons hp hr h =>
      obtain ⟨u, hx, hy⟩ := ih h
      exact ⟨u, .cons hp hr hx, hy⟩

lemma within (h : Between p rs q) : ∀ r ∈ rs, Within p r q := by
  induction h with
  | nil => exact nofun
  | @cons p q r rs hp hr h ih =>
    intro s hs
    rcases List.mem_cons.1 hs with rfl | hs
    · exact ⟨hp, hr, h.le⟩
    · have hw := ih s hs
      exact ⟨hp.trans (hr.le.trans hw.le_start), hw.start_lt, hw.finish_le⟩

lemma start_le (h : Between p (r :: rs) q) : ∀ s ∈ r :: rs, r.start ≤ s.start := by
  intro s hs
  cases h with
  | cons _ hr h =>
    rcases List.mem_cons.1 hs with rfl | hs
    · exact le_refl _
    · exact hr.le.trans (h.within s hs).le_start

lemma finish_le (h : Between p (rs ++ ss) q) (hr : r ∈ rs) (hs : s ∈ ss) :
    r.finish ≤ s.finish := by
  obtain ⟨u, h, h'⟩ := h.split
  exact (h.within r hr).finish_le.trans
    ((h'.within s hs).le_start.trans (h'.within s hs).start_lt.le)

/-- Ranges that follow one another are bounded by the start of the first and the end of the last. -/
lemma bounding_eq {first last : Range} {inside : List Range} {os : List (Option Range)}
    (h : Between p (first :: (inside ++ [last])) q) (hfirst : some first ∈ os)
    (hlast : some last ∈ os) (hos : ∀ r, some r ∈ os → r ∈ first :: (inside ++ [last])) :
    bounding os = some ⟨first.start, last.finish⟩ := by
  obtain ⟨b, hb, hbfirst⟩ := exists_bounding_covers hfirst
  have hblast := bounding_covers hb hlast
  have hcovers : ∀ r, some r ∈ os → (⟨first.start, last.finish⟩ : Range).Covers r := by
    intro r hr
    have hmem : r ∈ (first :: inside) ++ [last] := hos r hr
    refine ⟨h.start_le r hmem, ?_⟩
    cases List.mem_append.1 hmem with
    | inl hr =>
      have hsplit : Between p ((first :: inside) ++ [last]) q := h
      have hle : r.finish ≤ last.finish := hsplit.finish_le hr (.head _)
      exact hle
    | inr hr =>
      rw [List.mem_singleton.1 hr]
  have hclosed : MergeClosed (⟨first.start, last.finish⟩ : Range).Covers := fun _ _ => Covers.merge
  have hwithin := hclosed.bounding hcovers hb
  have hstart : b.start = first.start := le_antisymm hbfirst.1 hwithin.1
  have hfinish : b.finish = last.finish := le_antisymm hwithin.2 hblast.2
  rw [hb, ← hstart, ← hfinish]

end Between

end Range

end BrighterCheck
