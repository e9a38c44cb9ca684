import BrighterCheck.Text.Dictionary
import Mathlib.Data.List.Nodup
import Mathlib.Tactic.Lemma

/-!
# Dictionaries are ordered

Storing keeps the keys of a dictionary in strictly increasing order, so that no key stands twice
and every entry is found under its key.
-/

namespace BrighterCheck.Dictionary

variable {κ α : Type} [LT κ] [DecidableLT κ] [DecidableEq κ]

/-- The keys increase strictly. -/
def Ordered (d : Dictionary κ α) : Prop :=
  d.Pairwise fun entry entry' => entry.1 < entry'.1

variable {d : Dictionary κ α} {key : κ} {value : α}

lemma mem_of_mem_insert {entry : κ × α} (h : entry ∈ insert key value d) :
    entry = (key, value) ∨ entry ∈ d := by
  induction d with
  | nil => exact .inl (List.mem_singleton.1 h)
  | cons first rest ih =>
    obtain ⟨k, v⟩ := first
    unfold insert at h
    split at h
    case isTrue => exact List.mem_cons.1 h
    case isFalse =>
      split at h
      case isTrue => exact (List.mem_cons.1 h).imp_right (.tail _)
      case isFalse =>
        rcases List.mem_cons.1 h with rfl | h
        · exact .inr (.head _)
        · exact (ih h).imp_right (.tail _)

lemma insert_ne_nil : insert key value d ≠ [] := by
  cases d with
  | nil => exact List.cons_ne_nil _ _
  | cons first rest =>
    unfold insert
    split
    · exact List.cons_ne_nil _ _
    · split <;> exact List.cons_ne_nil _ _

section Order

variable [LE κ] [Std.LawfulOrderLT κ] [Std.IsLinearOrder κ]

/-- Storing keeps the order. -/
theorem Ordered.insert (h : d.Ordered) (key : κ) (value : α) : (d.insert key value).Ordered := by
  induction d with
  | nil => exact List.pairwise_singleton _ _
  | cons first rest ih =>
    obtain ⟨k, v⟩ := first
    obtain ⟨hfirst, hrest⟩ := List.pairwise_cons.1 h
    unfold Dictionary.insert
    split
    case isTrue hlt =>
      refine List.pairwise_cons.2 ⟨fun entry he => ?_, h⟩
      rcases List.mem_cons.1 he with rfl | he
      · exact hlt
      · exact Std.lt_trans hlt (hfirst entry he)
    case isFalse hnlt =>
      split
      case isTrue heq =>
        subst heq
        exact List.pairwise_cons.2 ⟨hfirst, hrest⟩
      case isFalse hne =>
        refine List.pairwise_cons.2 ⟨fun entry he => ?_, ih hrest⟩
        rcases mem_of_mem_insert he with rfl | he
        · exact Std.lt_of_le_of_ne (Std.not_lt.1 hnlt) (Ne.symm hne)
        · exact hfirst entry he

omit [DecidableLT κ] [Std.IsLinearOrder κ] in
/-- In an ordered dictionary every entry is found under its key. -/
theorem Ordered.find?_eq_some_iff (h : d.Ordered) :
    d.find? key = some value ↔ (key, value) ∈ d := by
  induction d with
  | nil => simp [find?]
  | cons first rest ih =>
    obtain ⟨k, v⟩ := first
    obtain ⟨hfirst, hrest⟩ := List.pairwise_cons.1 h
    rw [find?]
    split
    case isTrue heq =>
      subst heq
      constructor
      · rintro ⟨⟩
        exact .head _
      · intro hmem
        rcases List.mem_cons.1 hmem with heq | hmem
        · rw [(Prod.mk.inj heq).2]
        · -- A later entry has a greater key.
          exact absurd (hfirst _ hmem) (Std.lt_irrefl)
    case isFalse hne =>
      rw [ih hrest, List.mem_cons, or_iff_right fun heq => hne (Prod.mk.inj heq).1]

omit [DecidableLT κ] [DecidableEq κ] [Std.IsLinearOrder κ] in
/-- The keys of an ordered dictionary are distinct. -/
lemma Ordered.nodup_keys (h : d.Ordered) : (d.map Prod.fst).Nodup :=
  (List.pairwise_map.2 h).imp Std.ne_of_lt

omit [DecidableLT κ] [DecidableEq κ] in
/-- Ordered dictionaries with the same entries are equal. -/
theorem Ordered.ext {d' : Dictionary κ α} (h : d.Ordered) (h' : d'.Ordered)
    (hmem : ∀ entry, entry ∈ d ↔ entry ∈ d') : d = d' := by
  have hperm : d.Perm d' :=
    (List.perm_ext_iff_of_nodup (.of_map _ h.nodup_keys) (.of_map _ h'.nodup_keys)).2 hmem
  refine hperm.eq_of_pairwise (fun _ _ _ _ hlt hgt => ?_) h h'
  exact absurd (Std.lt_trans hlt hgt) Std.lt_irrefl

end Order

end BrighterCheck.Dictionary
