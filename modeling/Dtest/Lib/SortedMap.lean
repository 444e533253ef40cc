import Mathlib.Algebra.BigOperators.Group.List.Basic
import Mathlib.Algebra.Order.Ring.Nat
import Mathlib.Data.Finset.Card
import Mathlib.Data.List.Perm.Basic
import Mathlib.Order.Defs.LinearOrder

/-!
# Finite maps as strictly sorted lists of entries

`SortedMap κ ν` is an ordered finite map with the operations of `std::map`: `insert` leaves an
existing entry alone, and `lowerBound q` is the first entry whose key is not below `q`.

Sums over a map are computed from the two permutation lemmas `perm_insert` and `perm_erase`.
-/

universe u v w

/-- A finite map, as the list of its entries in the order of the keys. -/
@[ext]
structure SortedMap (κ : Type u) (ν : Type v) [LinearOrder κ] where
  entries : List (κ × ν)
  sorted : entries.Pairwise fun a b => a.1 < b.1

namespace SortedMap

variable {κ : Type u} {ν : Type v} [LinearOrder κ]

/-- The map without entries. -/
def empty : SortedMap κ ν := ⟨[], List.Pairwise.nil⟩

/-- Insertion into a sorted list of entries; an existing entry stays. -/
def insertEntry (k : κ) (v : ν) : List (κ × ν) → List (κ × ν)
  | [] => [(k, v)]
  | e :: l => if k < e.1 then (k, v) :: e :: l
    else if k = e.1 then e :: l else e :: insertEntry k v l

theorem mem_insertEntry {k : κ} {v : ν} {l : List (κ × ν)} {e : κ × ν}
    (h : e ∈ insertEntry k v l) : e = (k, v) ∨ e ∈ l := by
  induction l with
  | nil => exact Or.inl (List.mem_singleton.1 h)
  | cons a l ih =>
    simp only [insertEntry] at h
    split_ifs at h
    · exact List.mem_cons.1 h
    · exact Or.inr h
    · rcases List.mem_cons.1 h with rfl | h
      · exact Or.inr (List.mem_cons_self ..)
      · exact (ih h).imp_right (List.mem_cons_of_mem _)

theorem sorted_insertEntry (k : κ) (v : ν) {l : List (κ × ν)}
    (hl : l.Pairwise fun a b => a.1 < b.1) :
    (insertEntry k v l).Pairwise fun a b => a.1 < b.1 := by
  induction l with
  | nil => exact List.pairwise_singleton _ _
  | cons a l ih =>
    obtain ⟨ha, hl'⟩ := List.pairwise_cons.1 hl
    simp only [insertEntry]
    split_ifs with h1 h2
    · refine List.pairwise_cons.2 ⟨fun e he => ?_, hl⟩
      rcases List.mem_cons.1 he with rfl | he
      · exact h1
      · exact h1.trans (ha e he)
    · exact hl
    · refine List.pairwise_cons.2 ⟨fun e he => ?_, ih hl'⟩
      rcases mem_insertEntry he with rfl | he
      · exact lt_of_le_of_ne (not_lt.1 h1) (Ne.symm h2)
      · exact ha e he

/-- `std::map::insert`. -/
def insert (m : SortedMap κ ν) (k : κ) (v : ν) : SortedMap κ ν :=
  ⟨insertEntry k v m.entries, sorted_insertEntry k v m.sorted⟩

/-- Removal of the entry of a key. -/
def erase (m : SortedMap κ ν) (k : κ) : SortedMap κ ν :=
  ⟨m.entries.filter fun e => e.1 ≠ k, m.sorted.filter _⟩

/-- The value of a key. -/
def find? (m : SortedMap κ ν) (k : κ) : Option ν :=
  (m.entries.find? fun e => e.1 = k).map Prod.snd

/-- The first entry whose key is at least `q`. -/
def lowerBound (m : SortedMap κ ν) (q : κ) : Option (κ × ν) := m.entries.find? fun e => q ≤ e.1

/-- The number of entries. -/
def size (m : SortedMap κ ν) : ℕ := m.entries.length

/-- The sum of `f` over the values. -/
def sum (m : SortedMap κ ν) (f : ν → ℕ) : ℕ := (m.entries.map fun e => f e.2).sum

/-- Assignment to the value of a key, as `m[k] = v` does. -/
def set (m : SortedMap κ ν) (k : κ) (v : ν) : SortedMap κ ν := (m.erase k).insert k v

/-- The keys, in order. -/
def keys (m : SortedMap κ ν) : List κ := m.entries.map Prod.fst

/-- `order` lists every key once: a possible iteration order of a hash map. -/
def Iterates (m : SortedMap κ ν) (order : List κ) : Prop :=
  order.Nodup ∧ ∀ k, k ∈ order ↔ k ∈ m.keys

/-- The map with `f` applied to every value. -/
def map {ν' : Type w} (m : SortedMap κ ν) (f : ν → ν') : SortedMap κ ν' :=
  ⟨m.entries.map fun e => (e.1, f e.2), List.pairwise_map.2 m.sorted⟩

variable {m : SortedMap κ ν} {k q : κ} {v w : ν}

/-! ## Lookups and entries -/

theorem eq_of_mem_of_fst_eq {a b : κ × ν} (ha : a ∈ m.entries) (hb : b ∈ m.entries)
    (h : a.1 = b.1) : a = b := by
  by_contra hne
  rcases lt_trichotomy a.1 b.1 with hlt | heq | hlt
  · exact hlt.ne h
  · exact List.Pairwise.forall_of_forall_of_flip (R := fun a b => a = b ∨ a.1 ≠ b.1)
      (fun x _ => Or.inl rfl) (m.sorted.imp fun h => Or.inr h.ne)
      (m.sorted.imp fun h => Or.inr h.ne') ha hb |>.elim hne (fun h' => h' h)
  · exact hlt.ne h.symm

theorem find?_eq_some_iff : m.find? k = some v ↔ (k, v) ∈ m.entries := by
  unfold find?
  constructor
  · intro h
    obtain ⟨e, he, rfl⟩ := Option.map_eq_some_iff.1 h
    have hk := List.find?_some he
    simp only [decide_eq_true_eq] at hk
    subst hk
    exact List.mem_of_find?_eq_some he
  · intro h
    cases hf : m.entries.find? fun e => e.1 = k with
    | none => exact absurd (List.find?_eq_none.1 hf _ h) (by simp)
    | some e =>
      have hk := List.find?_some hf
      simp only [decide_eq_true_eq] at hk
      rw [eq_of_mem_of_fst_eq (List.mem_of_find?_eq_some hf) h hk]
      rfl

theorem find?_eq_none_iff : m.find? k = none ↔ ∀ e ∈ m.entries, e.1 ≠ k := by
  simp [find?]

theorem find?_empty (k : κ) : (empty : SortedMap κ ν).find? k = none := rfl

/-! ## Insertion and removal -/

theorem insert_eq_self (h : m.find? k = some w) (v : ν) : m.insert k v = m := by
  have key : ∀ l : List (κ × ν), (l.Pairwise fun a b => a.1 < b.1) → (k, w) ∈ l →
      insertEntry k v l = l := by
    intro l hl hmem
    induction l with
    | nil => cases hmem
    | cons a l ih =>
      obtain ⟨ha, hl⟩ := List.pairwise_cons.1 hl
      simp only [insertEntry]
      rcases List.mem_cons.1 hmem with rfl | hmem
      · rw [if_neg (lt_irrefl k), if_pos rfl]
      · have hlt := ha _ hmem
        rw [if_neg hlt.not_gt, if_neg hlt.ne', ih hl hmem]
  ext1
  exact key _ m.sorted (find?_eq_some_iff.1 h)

theorem perm_insert (h : m.find? k = none) (v : ν) :
    (m.insert k v).entries.Perm ((k, v) :: m.entries) := by
  have key : ∀ l : List (κ × ν), (∀ e ∈ l, e.1 ≠ k) →
      (insertEntry k v l).Perm ((k, v) :: l) := by
    intro l hl
    induction l with
    | nil => exact List.Perm.refl _
    | cons a l ih =>
      simp only [insertEntry]
      split_ifs with h1 h2
      · exact List.Perm.refl _
      · exact absurd h2.symm (hl a (List.mem_cons_self ..))
      · exact ((ih fun e he => hl e (List.mem_cons_of_mem _ he)).cons a).trans (List.Perm.swap ..)
  exact key _ (find?_eq_none_iff.1 h)

theorem perm_erase (h : m.find? k = some v) : m.entries.Perm ((k, v) :: (m.erase k).entries) := by
  have hmem := find?_eq_some_iff.1 h
  have hsplit := List.filter_append_perm (fun e => decide (e.1 = k)) m.entries
  have hone : m.entries.filter (fun e => decide (e.1 = k)) = [(k, v)] := by
    refine List.perm_singleton.1 ((List.perm_ext_iff_of_nodup ?_ (List.pairwise_singleton _ _)).2
      fun e => ?_)
    · exact (m.sorted.filter _).imp fun h e => h.ne (congrArg Prod.fst e)
    · rw [List.mem_filter, List.mem_singleton, decide_eq_true_eq]
      exact ⟨fun he => eq_of_mem_of_fst_eq he.1 hmem he.2, by rintro rfl; exact ⟨hmem, rfl⟩⟩
  rw [hone] at hsplit
  apply hsplit.symm.trans
  simp [erase]

theorem mem_insert (h : m.find? k = none) {e : κ × ν} :
    e ∈ (m.insert k v).entries ↔ e = (k, v) ∨ e ∈ m.entries := by
  rw [(perm_insert h v).mem_iff, List.mem_cons]

theorem mem_erase {e : κ × ν} : e ∈ (m.erase k).entries ↔ e ∈ m.entries ∧ e.1 ≠ k := by
  simp [erase]

theorem find?_insert_self (h : m.find? k = none) : (m.insert k v).find? k = some v :=
  find?_eq_some_iff.2 ((mem_insert h).2 (Or.inl rfl))

theorem find?_insert_of_ne (h : q ≠ k) : (m.insert k v).find? q = m.find? q := by
  cases hk : m.find? k with
  | some w => rw [insert_eq_self hk]
  | none =>
    apply Option.ext
    intro u
    rw [find?_eq_some_iff, find?_eq_some_iff, mem_insert hk]
    simp [h]

theorem find?_erase_self : (m.erase k).find? k = none :=
  find?_eq_none_iff.2 fun _ he => (mem_erase.1 he).2

theorem find?_erase_of_ne (h : q ≠ k) : (m.erase k).find? q = m.find? q := by
  apply Option.ext
  intro u
  rw [find?_eq_some_iff, find?_eq_some_iff, mem_erase]
  simp [h]

theorem find?_erase (m : SortedMap κ ν) (k q : κ) :
    (m.erase k).find? q = if q = k then none else m.find? q := by
  split_ifs with h
  · rw [h, find?_erase_self]
  · exact find?_erase_of_ne h

theorem find?_insert (h : m.find? k = none) (q : κ) :
    (m.insert k v).find? q = if q = k then some v else m.find? q := by
  split_ifs with hq
  · rw [hq, find?_insert_self h]
  · exact find?_insert_of_ne hq

/-! ## Assignment and keys -/

theorem find?_set (m : SortedMap κ ν) (k : κ) (v : ν) (q : κ) :
    (m.set k v).find? q = if q = k then some v else m.find? q := by
  rw [set, find?_insert find?_erase_self, find?_erase]
  split_ifs <;> rfl

@[simp] theorem find?_set_self : (m.set k v).find? k = some v := by rw [find?_set, if_pos rfl]

theorem find?_set_of_ne (h : q ≠ k) : (m.set k v).find? q = m.find? q := by
  rw [find?_set, if_neg h]

theorem find?_set_eq_some {u : ν} :
    (m.set k v).find? q = some u ↔ q = k ∧ v = u ∨ q ≠ k ∧ m.find? q = some u := by
  rw [find?_set]
  split_ifs with h <;> simp [h]

theorem mem_keys : k ∈ m.keys ↔ ∃ v, m.find? k = some v := by
  simp [keys, find?_eq_some_iff]

theorem mem_keys_of_find? (h : m.find? k = some v) : k ∈ m.keys := mem_keys.2 ⟨v, h⟩

theorem find?_eq_none_of_notMem (h : k ∉ m.keys) : m.find? k = none := by
  by_contra hne
  exact h (mem_keys.2 (Option.ne_none_iff_exists'.1 hne))

theorem nodup_keys (m : SortedMap κ ν) : m.keys.Nodup :=
  List.pairwise_map.2 (m.sorted.imp fun h => h.ne)

@[simp] theorem length_keys (m : SortedMap κ ν) : m.keys.length = m.size := List.length_map ..

theorem keys_empty : (empty : SortedMap κ ν).keys = [] := rfl

theorem mem_keys_set : q ∈ (m.set k v).keys ↔ q = k ∨ q ∈ m.keys := by
  rw [mem_keys, mem_keys, find?_set]
  split_ifs with h <;> simp [h]

theorem mem_keys_set_of_mem (h : k ∈ m.keys) : q ∈ (m.set k v).keys ↔ q ∈ m.keys := by
  rw [mem_keys_set]
  exact ⟨fun hq => hq.elim (fun e => e ▸ h) id, Or.inr⟩

theorem mem_keys_erase : q ∈ (m.erase k).keys ↔ q ≠ k ∧ q ∈ m.keys := by
  rw [mem_keys, mem_keys, find?_erase]
  split_ifs with h <;> simp [h]

/-- Two maps with the same keys have the same number of entries. -/
theorem size_congr {ν' : Type w} {m' : SortedMap κ ν'} (h : ∀ q, q ∈ m.keys ↔ q ∈ m'.keys) :
    m.size = m'.size := by
  rw [← length_keys, ← length_keys]
  exact ((List.perm_ext_iff_of_nodup m.nodup_keys m'.nodup_keys).2 h).length_eq

theorem size_set (m : SortedMap κ ν) (k : κ) (v : ν) :
    (m.set k v).size = if k ∈ m.keys then m.size else m.size + 1 := by
  split_ifs with h
  · exact size_congr fun q => mem_keys_set_of_mem h
  · have herase : (m.erase k).size = m.size := size_congr fun q => by
      rw [mem_keys_erase]
      exact ⟨And.right, fun hq => ⟨fun e => h (e ▸ hq), hq⟩⟩
    rw [← herase]
    exact (perm_insert find?_erase_self v).length_eq

namespace Iterates

variable {order : List κ}

theorem mem_iff (h : m.Iterates order) : k ∈ order ↔ k ∈ m.keys := h.2 k

theorem length_eq (h : m.Iterates order) : order.length = m.size := by
  rw [← length_keys]
  exact ((List.perm_ext_iff_of_nodup h.1 m.nodup_keys).2 h.2).length_eq

theorem congr {ν' : Type w} {m' : SortedMap κ ν'} (h : m.Iterates order)
    (hk : ∀ q, q ∈ m.keys ↔ q ∈ m'.keys) : m'.Iterates order :=
  ⟨h.1, fun k => (h.2 k).trans (hk k)⟩

end Iterates

instance decidableIterates (m : SortedMap κ ν) (order : List κ) : Decidable (m.Iterates order) :=
  decidable_of_iff (order.Nodup ∧ (∀ k ∈ order, k ∈ m.keys) ∧ ∀ k ∈ m.keys, k ∈ order)
    ⟨fun h => ⟨h.1, fun k => ⟨h.2.1 k, h.2.2 k⟩⟩,
      fun h => ⟨h.1, fun k => (h.2 k).1, fun k => (h.2 k).2⟩⟩

/-! ## Sums -/

theorem sum_insert (h : m.find? k = none) (f : ν → ℕ) : (m.insert k v).sum f = f v + m.sum f := by
  unfold sum
  rw [((perm_insert h v).map _).sum_eq, List.map_cons, List.sum_cons]

theorem sum_erase (h : m.find? k = some v) (f : ν → ℕ) : f v + (m.erase k).sum f = m.sum f := by
  unfold sum
  rw [((perm_erase h).map _).sum_eq, List.map_cons, List.sum_cons]

theorem sum_add (m : SortedMap κ ν) (f g : ν → ℕ) :
    m.sum f + m.sum g = m.sum fun v => f v + g v := List.sum_map_add.symm

theorem sum_pos_iff (m : SortedMap κ ν) (f : ν → ℕ) :
    0 < m.sum f ↔ ∃ e ∈ m.entries, 0 < f e.2 := by
  unfold sum
  rw [Nat.pos_iff_ne_zero, Ne, List.sum_eq_zero_iff_forall_eq_nat]
  simp [Nat.pos_iff_ne_zero]

theorem size_insert (h : m.find? k = none) : (m.insert k v).size = m.size + 1 :=
  (perm_insert h v).length_eq

theorem size_erase (h : m.find? k = some v) : (m.erase k).size + 1 = m.size :=
  (perm_erase h).length_eq.symm

theorem size_le_card {s : Finset κ} (h : ∀ e ∈ m.entries, e.1 ∈ s) : m.size ≤ s.card := by
  have hnodup : (m.entries.map Prod.fst).Nodup := List.pairwise_map.2 (m.sorted.imp fun h => h.ne)
  have hcard := List.toFinset_card_of_nodup hnodup
  rw [List.length_map] at hcard
  refine hcard.ge.trans (Finset.card_le_card fun k hk => ?_)
  obtain ⟨e, he, rfl⟩ := List.mem_map.1 (List.mem_toFinset.1 hk)
  exact h e he

/-! ## The lower bound -/

theorem lowerBound_eq_none_iff : m.lowerBound q = none ↔ ∀ e ∈ m.entries, e.1 < q := by
  simp [lowerBound]

theorem lowerBound_eq_some {e : κ × ν} (h : m.lowerBound q = some e) :
    e ∈ m.entries ∧ q ≤ e.1 ∧ ∀ e' ∈ m.entries, q ≤ e'.1 → e.1 ≤ e'.1 := by
  unfold lowerBound at h
  obtain ⟨hq, as, bs, heq, has⟩ := List.find?_eq_some_iff_append.1 h
  simp only [decide_eq_true_eq] at hq
  refine ⟨List.mem_of_find?_eq_some h, hq, fun e' he' hq' => ?_⟩
  have hs := m.sorted
  rw [heq] at he' hs
  rcases List.mem_append.1 he' with he' | he'
  · exact absurd hq' (by simpa using has e' he')
  · rcases List.mem_cons.1 he' with rfl | he'
    · exact le_rfl
    · exact ((List.pairwise_cons.1 (List.pairwise_append.1 hs).2.1).1 e' he').le

/-! ## Mapping the values -/

theorem mem_map {ν' : Type w} {f : ν → ν'} {e : κ × ν'} :
    e ∈ (m.map f).entries ↔ ∃ a ∈ m.entries, (a.1, f a.2) = e := List.mem_map

theorem find?_map {ν' : Type w} (m : SortedMap κ ν) (f : ν → ν') (k : κ) :
    (m.map f).find? k = (m.find? k).map f := by
  unfold find? map
  rw [List.find?_map, Option.map_map, Option.map_map]
  rfl

end SortedMap
