/-
# Kit.SlotTable — a fixed array of slots as a finite map.

Slots are cleared in place and reused; nothing is ever moved.  A `Layout` says which key and amount
a slot holds and which key marks it free.  Three readings of one array matter:

* `toMap`, the finite map it stores (order and holes forgotten);
* `liveCount`, how many slots are taken;
* `Counted v c`, that a reader of the first `c` slots misses nothing, and `Packed v c`, that the
  live slots are exactly those.

All facts about writing one slot go through `sum_set`: a sum over the slots changes by the new
slot's term minus the old one's.  `Move` is the whole repertoire of an operation on a table and its
counter; what each move does to the readings is proved once, below it.
-/
import Mathlib.Algebra.BigOperators.Fin
import Mathlib.Algebra.BigOperators.Finsupp.Basic
import Mathlib.Data.Finsupp.Order
import VeilVault.Kit.CapMap

namespace Kit

open Finset

variable {κ σ M : Type*} {n : ℕ}

/-! ## First match and single writes -/

/-- A slot is read at a `Fin` with nothing left to prove about the bound. -/
instance (priority := high) instGetElemSlot : GetElem (Vector σ n) (Fin n) σ fun _ _ => True where
  getElem v i _ := v.get i

@[simp]
theorem getElem_slot (v : Vector σ n) (i : Fin n) : v[i] = v[i.val] := rfl

theorem findFinIdx?_eq_some {v : Vector σ n} {p : σ → Bool} {i : Fin n} :
    v.findFinIdx? p = some i ↔ p v[i] = true ∧ ∀ j : Fin n, j < i → p v[j] = false := by
  obtain ⟨xs, rfl⟩ := v
  simp only [Vector.findFinIdx?_mk, getElem_slot, Vector.getElem_mk]
  have hcast : (Array.findFinIdx? p xs).map (Fin.cast rfl) = Array.findFinIdx? p xs := by
    cases Array.findFinIdx? p xs <;> rfl
  rw [hcast, Array.findFinIdx?_eq_some_iff]
  simp

theorem findFinIdx?_eq_none {v : Vector σ n} {p : σ → Bool} :
    v.findFinIdx? p = none ↔ ∀ i : Fin n, p v[i] = false := by
  rw [Vector.findFinIdx?_eq_none_iff]
  constructor
  · intro h i
    simpa using h v[i] (Vector.getElem_mem i.isLt)
  · intro h x hx
    obtain ⟨i, hi, rfl⟩ := Vector.mem_iff_getElem.mp hx
    simpa using h ⟨i, hi⟩

theorem getElem_set_fin (v : Vector σ n) (i j : Fin n) (s : σ) :
    (v.set i s i.isLt)[j] = if i = j then s else v[j] := by
  simp only [getElem_slot, Vector.getElem_set, Fin.ext_iff]

@[simp]
theorem getElem_set_fin_self (v : Vector σ n) (i : Fin n) (s : σ) : (v.set i s i.isLt)[i] = s := by
  rw [getElem_set_fin, if_pos rfl]

theorem getElem_set_fin_ne (v : Vector σ n) {i j : Fin n} (s : σ) (h : i ≠ j) :
    (v.set i s i.isLt)[j] = v[j] := by
  rw [getElem_set_fin, if_neg h]

/-- Writing one good slot keeps every slot good. -/
theorem forall_set {P : σ → Prop} {v : Vector σ n} {i : Fin n} {s : σ}
    (hv : ∀ j : Fin n, P v[j]) (hs : P s) : ∀ j : Fin n, P (v.set i s i.isLt)[j] := by
  intro j
  rw [getElem_set_fin]
  split
  · exact hs
  · exact hv j

/-- Each slot is related to what became of it. -/
def Slotwise (R : σ → σ → Prop) (v v' : Vector σ n) : Prop := ∀ i : Fin n, R v[i] v'[i]

theorem slotwise_refl {R : σ → σ → Prop} (hrefl : ∀ s, R s s) (v : Vector σ n) : Slotwise R v v :=
  fun i => hrefl v[i]

theorem Slotwise.trans {R : σ → σ → Prop} {v v' v'' : Vector σ n}
    (htrans : ∀ s s' s'', R s s' → R s' s'' → R s s'') (h : Slotwise R v v')
    (h' : Slotwise R v' v'') : Slotwise R v v'' :=
  fun i => htrans _ _ _ (h i) (h' i)

/-- Writing one slot relates the others to themselves. -/
theorem slotwise_set {R : σ → σ → Prop} (hrefl : ∀ s, R s s) {v : Vector σ n} {i : Fin n} {s : σ}
    (hs : R v[i] s) : Slotwise R v (v.set i s i.isLt) := by
  intro j
  rw [getElem_set_fin]
  split
  case isTrue hij => exact hij ▸ hs
  case isFalse => exact hrefl v[j]

/-- A sum over the slots after a write, balanced so that no subtraction is needed. -/
theorem sum_set [AddCommMonoid M] (f : σ → M) (v : Vector σ n) (i : Fin n) (s : σ) :
    (∑ j : Fin n, f (v.set i s i.isLt)[j]) + f v[i] = (∑ j : Fin n, f v[j]) + f s := by
  rw [← Finset.add_sum_erase univ _ (mem_univ i), ← Finset.add_sum_erase univ (fun j => f v[j])
    (mem_univ i), getElem_set_fin_self]
  have hrest : ∑ j ∈ univ.erase i, f (v.set i s i.isLt)[j] = ∑ j ∈ univ.erase i, f v[j] :=
    Finset.sum_congr rfl fun j hj => by rw [getElem_set_fin_ne v s (ne_of_mem_erase hj).symm]
  rw [hrest, add_comm (f s + _), add_comm (f s), add_assoc]

/-- Summing over a filtered table is summing over its slots. -/
theorem sum_filter_toList (v : Vector σ n) (p : σ → Bool) (f : σ → ℕ) :
    ((v.toList.filter p).map f).sum = ∑ i : Fin n, if p v[i] then f v[i] else 0 := by
  have hfilter : ∀ l : List σ,
      ((l.filter p).map f).sum = (l.map fun s => if p s then f s else 0).sum := by
    intro l
    induction l with
    | nil => rfl
    | cons s l ih =>
        rw [List.filter_cons, List.map_cons, List.sum_cons, ← ih]
        split
        · rw [List.map_cons, List.sum_cons]
        · rw [Nat.zero_add]
  have hofFn : v.toList.map (fun s => if p s then f s else 0) =
      List.ofFn fun i : Fin n => if p v[i] then f v[i] else 0 := by
    apply List.ext_getElem <;> simp
  rw [hfilter, hofFn, List.sum_ofFn]

/-- Reading a prefix of a table only leaves terms out. -/
theorem sum_filter_take_le (l : List σ) (c : ℕ) (p : σ → Bool) (f : σ → ℕ) :
    (((l.take c).filter p).map f).sum ≤ ((l.filter p).map f).sum :=
  (((List.take_sublist c l).filter p).map f).sum_le_sum fun _ _ => Nat.zero_le _

/-! ## Layouts -/

/-- How a slot is read: its key, its amount, and the key that marks it free. -/
structure Layout (κ σ : Type*) where
  key : σ → κ
  amount : σ → ℕ
  free : κ

namespace Layout

variable (L : Layout κ σ)

def Live (s : σ) : Prop := L.key s ≠ L.free

/-- No two live slots share a key. -/
def Distinct (v : Vector σ n) : Prop :=
  ∀ i j : Fin n, L.Live v[i] → L.key v[i] = L.key v[j] → i = j

/-- A reader of the first `c` slots sees every live one. -/
def Counted (v : Vector σ n) (c : ℕ) : Prop := ∀ i : Fin n, L.Live v[i] → i.val < c

/-- The live slots are exactly the first `c`. -/
def Packed (v : Vector σ n) (c : ℕ) : Prop := ∀ i : Fin n, L.Live v[i] ↔ i.val < c

variable {L} {v : Vector σ n} {i : Fin n} {s : σ} {c : ℕ}

theorem Packed.counted (h : L.Packed v c) : L.Counted v c := fun i hi => (h i).mp hi

/-! ### Lookup -/

/-- The two scans of "the slot of `k`, else the first free one", with what each outcome means. -/
theorem lookup_cases [DecidableEq κ] (L : Layout κ σ) (v : Vector σ n) (k : κ) :
    (∃ i, v.findFinIdx? (fun s => L.key s == k) = some i ∧ L.key v[i] = k) ∨
      (v.findFinIdx? (fun s => L.key s == k) = none ∧ ∀ j : Fin n, L.key v[j] ≠ k) := by
  cases h : v.findFinIdx? (fun s => L.key s == k) with
  | none => exact .inr ⟨rfl, fun j => by simpa using findFinIdx?_eq_none.mp h j⟩
  | some i => exact .inl ⟨i, rfl, by simpa using (findFinIdx?_eq_some.mp h).1⟩

theorem free_cases [DecidableEq κ] (L : Layout κ σ) (v : Vector σ n) :
    (∃ i, v.findFinIdx? (fun s => !(L.key s != L.free)) = some i ∧ ¬ L.Live v[i] ∧
        ∀ j : Fin n, j < i → L.Live v[j]) ∨
      (v.findFinIdx? (fun s => !(L.key s != L.free)) = none ∧ ∀ j : Fin n, L.Live v[j]) := by
  cases h : v.findFinIdx? (fun s => !(L.key s != L.free)) with
  | none => exact .inr ⟨rfl, fun j => by simpa [Live] using findFinIdx?_eq_none.mp h j⟩
  | some i =>
      obtain ⟨hi, hfirst⟩ := findFinIdx?_eq_some.mp h
      exact .inl ⟨i, rfl, by simpa [Live] using hi, fun j hj => by simpa [Live] using hfirst j hj⟩

/-! ### Prefixes -/

/-- The first free slot of a packed table is the one right after the live ones. -/
theorem Packed.first_free (h : L.Packed v c) (hi : ¬ L.Live v[i])
    (hfirst : ∀ j : Fin n, j < i → L.Live v[j]) : i.val = c := by
  have hge : ¬ i.val < c := fun hlt => hi ((h i).mpr hlt)
  by_contra hne
  have hc : c < i.val := by omega
  have hlive := hfirst ⟨c, by omega⟩ hc
  exact absurd ((h ⟨c, by omega⟩).mp hlive) (Nat.lt_irrefl c)

theorem Packed.set_open (h : L.Packed v c) (hi : i.val = c) (hs : L.Live s) :
    L.Packed (v.set i s i.isLt) (c + 1) := by
  intro j
  rw [getElem_set_fin]
  split
  case isTrue he =>
    subst he
    exact ⟨fun _ => by omega, fun _ => hs⟩
  case isFalse hne =>
    have : i.val ≠ j.val := fun he => hne (Fin.ext he)
    rw [h j]
    omega

theorem Packed.set_live (h : L.Packed v c) (hi : L.Live v[i]) (hs : L.Live s) :
    L.Packed (v.set i s i.isLt) c := by
  intro j
  rw [getElem_set_fin]
  split
  case isTrue he =>
    subst he
    exact ⟨fun _ => (h _).mp hi, fun _ => hs⟩
  case isFalse => exact h j

theorem Packed.set_clear_last (h : L.Packed v c) (hi : i.val + 1 = c) (hs : ¬ L.Live s) :
    L.Packed (v.set i s i.isLt) (c - 1) := by
  intro j
  rw [getElem_set_fin]
  split
  case isTrue he =>
    subst he
    exact ⟨fun hl => absurd hl hs, fun hlt => by omega⟩
  case isFalse hne =>
    have : i.val ≠ j.val := fun he => hne (Fin.ext he)
    rw [h j]
    omega

/-- Clearing a slot below another live one hides the last live slot from the prefix. -/
theorem Packed.not_counted_clear (h : L.Packed v c) (hc : c ≤ n) (hi : L.Live v[i])
    (hlast : i.val + 1 ≠ c) : ¬ L.Counted (v.set i s i.isLt) (c - 1) := by
  intro hcount
  have hlt := (h i).mp hi
  have hlive : L.Live (v.set i s i.isLt)[(⟨c - 1, by omega⟩ : Fin n)] := by
    have hne : i ≠ ⟨c - 1, by omega⟩ := by
      intro he
      have hval : i.val = c - 1 := congrArg Fin.val he
      omega
    rw [getElem_set_fin_ne v s hne]
    exact (h _).mpr (show c - 1 < c by omega)
  have := hcount _ hlive
  simp at this

/-! ### Distinct keys -/

theorem Distinct.set (h : L.Distinct v)
    (hs : L.Live s → ∀ j : Fin n, j ≠ i → L.key v[j] ≠ L.key s) :
    L.Distinct (v.set i s i.isLt) := by
  intro a b ha hab
  rw [getElem_set_fin] at ha hab
  rw [getElem_set_fin] at hab
  by_cases hia : i = a <;> by_cases hib : i = b
  · exact hia.symm.trans hib
  · rw [if_pos hia] at ha hab
    rw [if_neg hib] at hab
    exact absurd hab.symm (hs ha b (Ne.symm hib))
  · rw [if_neg hia] at ha hab
    rw [if_pos hib] at hab
    have hs' : L.Live s := by rw [Live, ← hab]; exact ha
    exact absurd hab (hs hs' a (Ne.symm hia))
  · rw [if_neg hia] at ha hab
    rw [if_neg hib] at hab
    exact h a b ha hab

theorem Distinct.set_fresh (h : L.Distinct v) (hs : ∀ j : Fin n, L.key v[j] ≠ L.key s) :
    L.Distinct (v.set i s i.isLt) :=
  h.set fun _ j _ => hs j

theorem Distinct.set_same (h : L.Distinct v) (hs : L.key s = L.key v[i]) :
    L.Distinct (v.set i s i.isLt) :=
  h.set fun hl j hj hk => hj (h i j (by rw [Live, ← hs]; exact hl) (by rw [← hs, hk])).symm

theorem Distinct.set_free (h : L.Distinct v) (hs : ¬ L.Live s) : L.Distinct (v.set i s i.isLt) :=
  h.set fun hl => absurd hl hs

/-! ### Moves -/

variable (L) in
/-- What one operation may do to a table and its counter.  `A` lists the slots it may clear. -/
inductive Move (A : Fin n → Prop) (v : Vector σ n) (c : ℕ) : Vector σ n → ℕ → Prop
  | stay : Move A v c v c
  | write (i : Fin n) (s : σ) (hi : L.Live v[i]) (hs : L.key s = L.key v[i]) :
      Move A v c (v.set i s i.isLt) c
  | fill (i : Fin n) (s : σ) (hi : ¬ L.Live v[i]) (hfirst : ∀ j : Fin n, j < i → L.Live v[j])
      (hs : L.Live s) (hnew : ∀ j : Fin n, L.key v[j] ≠ L.key s) :
      Move A v c (v.set i s i.isLt) (c + 1)
  | clear (i : Fin n) (s : σ) (hA : A i) (hi : L.Live v[i]) (hs : ¬ L.Live s) :
      Move A v c (v.set i s i.isLt) (c - 1)

variable {A : Fin n → Prop} {v' : Vector σ n} {c' : ℕ}

theorem Move.distinct (h : L.Move A v c v' c') (hd : L.Distinct v) : L.Distinct v' := by
  cases h with
  | stay => exact hd
  | write i s hi hs => exact hd.set_same hs
  | fill i s hi hfirst hs hnew => exact hd.set_fresh hnew
  | clear i s hA hi hs => exact hd.set_free hs

/-- A packed table stays packed as long as only its last live slot is cleared. -/
theorem Move.packed (h : L.Move A v c v' c') (hp : L.Packed v c)
    (hlast : ∀ i, A i → i.val + 1 = c) : L.Packed v' c' := by
  cases h with
  | stay => exact hp
  | write i s hi hs =>
      have hsl : L.Live s := by rw [Live, hs]; exact hi
      exact hp.set_live hi hsl
  | fill i s hi hfirst hs hnew => exact hp.set_open (hp.first_free hi hfirst) hs
  | clear i s hA hi hs => exact hp.set_clear_last (hlast i hA) hs

/-- Packed counters never exceed the number of slots. -/
theorem Move.count_le (h : L.Move A v c v' c') (hp : L.Packed v c) (hc : c ≤ n) : c' ≤ n := by
  cases h with
  | stay => exact hc
  | write i s hi hs => exact hc
  | fill i s hi hfirst hs hnew =>
      have := hp.first_free hi hfirst
      omega
  | clear i s hA hi hs => omega

/-! ### Counts -/

variable [DecidableEq κ]

instance (s : σ) : Decidable (L.Live s) := inferInstanceAs (Decidable (_ ≠ _))

variable (L) in
/-- How many slots are live. -/
def liveCount (v : Vector σ n) : ℕ := ∑ i : Fin n, if L.Live v[i] then 1 else 0

theorem liveCount_le : L.liveCount v ≤ n := by
  have h : L.liveCount v ≤ ∑ _i : Fin n, 1 :=
    Finset.sum_le_sum fun i _ => by split <;> omega
  simpa using h

theorem liveCount_eq_card : L.liveCount v = (univ.filter fun i : Fin n => L.Live v[i]).card := by
  rw [liveCount, Finset.card_filter]

theorem liveCount_lt (hi : ¬ L.Live v[i]) : L.liveCount v < n := by
  rw [liveCount_eq_card]
  calc (univ.filter fun i : Fin n => L.Live v[i]).card
      < (univ : Finset (Fin n)).card :=
        Finset.card_lt_card (Finset.filter_ssubset.mpr ⟨i, mem_univ i, hi⟩)
    _ = n := Finset.card_fin n

theorem liveCount_eq_of_forall (h : ∀ i : Fin n, L.Live v[i]) : L.liveCount v = n := by
  rw [liveCount_eq_card, Finset.filter_true_of_mem fun i _ => h i, Finset.card_fin]

theorem Packed.liveCount_eq (h : L.Packed v c) (hc : c ≤ n) : L.liveCount v = c := by
  rw [liveCount_eq_card, Finset.filter_congr fun i _ => h i, Fin.card_filter_val_lt]
  exact Nat.min_eq_right hc

/-- The first free slot is no further than the number of live ones. -/
theorem le_liveCount (hfirst : ∀ j : Fin n, j < i → L.Live v[j]) : i.val ≤ L.liveCount v := by
  rw [liveCount_eq_card]
  calc i.val = (univ.filter fun j : Fin n => j.val < i.val).card := by
        rw [Fin.card_filter_val_lt]
        exact (Nat.min_eq_right i.isLt.le).symm
    _ ≤ (univ.filter fun j : Fin n => L.Live v[j]).card :=
        Finset.card_le_card fun j hj => by
          simp only [mem_filter, mem_univ, true_and] at hj ⊢
          exact hfirst j (Fin.lt_def.mpr hj)

theorem liveCount_set_open (hi : ¬ L.Live v[i]) (hs : L.Live s) :
    L.liveCount (v.set i s i.isLt) = L.liveCount v + 1 := by
  have h := sum_set (fun t => if L.Live t then 1 else 0) v i s
  rw [if_neg hi, if_pos hs] at h
  exact h

theorem liveCount_set_live (hi : L.Live v[i]) (hs : L.Live s) :
    L.liveCount (v.set i s i.isLt) = L.liveCount v := by
  have h := sum_set (fun t => if L.Live t then 1 else 0) v i s
  rw [if_pos hi, if_pos hs] at h
  exact Nat.add_right_cancel h

theorem liveCount_set_clear (hi : L.Live v[i]) (hs : ¬ L.Live s) :
    L.liveCount (v.set i s i.isLt) + 1 = L.liveCount v := by
  have h := sum_set (fun t => if L.Live t then 1 else 0) v i s
  rw [if_pos hi, if_neg hs] at h
  exact h

theorem Move.liveCount (h : L.Move A v c v' c') (hc : c = L.liveCount v) :
    c' = L.liveCount v' := by
  cases h with
  | stay => exact hc
  | write i s hi hs =>
      have hsl : L.Live s := by rw [Live, hs]; exact hi
      rw [liveCount_set_live hi hsl]
      exact hc
  | fill i s hi hfirst hs hnew =>
      rw [liveCount_set_open hi hs]
      omega
  | clear i s hA hi hs =>
      have := liveCount_set_clear hi hs
      omega

/-! ### The stored map -/

variable (L) in
/-- The map one slot contributes. -/
noncomputable def entry (s : σ) : κ →₀ ℕ :=
  if L.Live s then Finsupp.single (L.key s) (L.amount s) else 0

variable (L) in
/-- The map the whole table stores. -/
noncomputable def toMap (v : Vector σ n) : κ →₀ ℕ := ∑ i : Fin n, L.entry v[i]

theorem toMap_apply (k : κ) : L.toMap v k = ∑ i : Fin n, L.entry v[i] k := by
  rw [toMap, Finsupp.finsetSum_apply]

theorem entry_apply_of_ne {k : κ} (h : L.key s ≠ k) : L.entry s k = 0 := by
  unfold entry
  split
  · rw [Finsupp.single_apply, if_neg h]
  · rfl

theorem entry_apply_self (h : L.Live s) : L.entry s (L.key s) = L.amount s := by
  rw [entry, if_pos h, Finsupp.single_eq_same]

theorem entry_free (h : ¬ L.Live s) : L.entry s = 0 := if_neg h

theorem toMap_key (hd : L.Distinct v) (hi : L.Live v[i]) :
    L.toMap v (L.key v[i]) = L.amount v[i] := by
  rw [toMap_apply, Finset.sum_eq_single i]
  · exact entry_apply_self hi
  · intro j _ hj
    exact entry_apply_of_ne fun hk => hj (hd i j hi hk.symm).symm
  · exact fun h => absurd (mem_univ i) h

theorem toMap_absent {k : κ} (h : ∀ j : Fin n, L.key v[j] ≠ k) : L.toMap v k = 0 := by
  rw [toMap_apply]
  exact Finset.sum_eq_zero fun j _ => entry_apply_of_ne (h j)

/-- Distinct positive live slots make up the whole support. -/
theorem card_support_toMap (hd : L.Distinct v)
    (hpos : ∀ i : Fin n, L.Live v[i] → 0 < L.amount v[i]) :
    (L.toMap v).support.card = L.liveCount v := by
  have himage : (L.toMap v).support =
      (univ.filter fun i : Fin n => L.Live v[i]).image fun i => L.key v[i] := by
    ext k
    rw [Finsupp.mem_support_iff, Finset.mem_image]
    constructor
    · intro hk
      by_contra hcon
      refine hk ?_
      rw [toMap_apply]
      refine Finset.sum_eq_zero fun j _ => ?_
      by_cases hj : L.Live v[j]
      · exact entry_apply_of_ne fun he => hcon ⟨j, by simpa using hj, he⟩
      · rw [entry_free hj]
        rfl
    · rintro ⟨j, hj, rfl⟩
      have hl : L.Live v[j] := by simpa using hj
      rw [toMap_key hd hl]
      exact (hpos j hl).ne'
  rw [himage, liveCount_eq_card]
  refine Finset.card_image_of_injOn fun a ha b _ hab => ?_
  exact hd a b (by simpa using ha) hab

theorem card_support_toMap_le (v : Vector σ n) : (L.toMap v).support.card ≤ n := by
  have hsub : (L.toMap v).support ⊆ univ.image fun i : Fin n => L.key v[i] := by
    intro k hk
    rw [Finset.mem_image]
    by_contra hcon
    refine Finsupp.mem_support_iff.mp hk (toMap_absent fun j he => hcon ⟨j, mem_univ j, he⟩)
  calc (L.toMap v).support.card
      ≤ (univ.image fun i : Fin n => L.key v[i]).card := Finset.card_le_card hsub
    _ ≤ (univ : Finset (Fin n)).card := Finset.card_image_le
    _ = n := Finset.card_fin n

theorem toMap_set (v : Vector σ n) (i : Fin n) (s : σ) :
    L.toMap (v.set i s i.isLt) + L.entry v[i] = L.toMap v + L.entry s :=
  sum_set L.entry v i s

/-- What a slot holds beside its key and its amount is no part of the map. -/
theorem toMap_set_same (v : Vector σ n) (i : Fin n) (hkey : L.key s = L.key v[i])
    (hamount : L.amount s = L.amount v[i]) : L.toMap (v.set i s i.isLt) = L.toMap v := by
  have hlive : L.Live s ↔ L.Live v[i] := by rw [Live, Live, hkey]
  have hentry : L.entry s = L.entry v[i] := by
    unfold entry
    by_cases hl : L.Live s
    · rw [if_pos hl, if_pos (hlive.mp hl), hkey, hamount]
    · rw [if_neg hl, if_neg fun h => hl (hlive.mpr h)]
  have h := toMap_set (L := L) v i s
  rw [hentry] at h
  exact add_right_cancel h

/-- Rewriting a live slot under its own key updates the map there. -/
theorem toMap_set_live (hd : L.Distinct v) (hi : L.Live v[i]) (hs : L.key s = L.key v[i]) :
    L.toMap (v.set i s i.isLt) = (L.toMap v).update (L.key v[i]) (L.amount s) := by
  have hsl : L.Live s := by rw [Live, hs]; exact hi
  ext k
  have hk := DFunLike.congr_fun (toMap_set (L := L) v i s) k
  rw [Finsupp.add_apply, Finsupp.add_apply] at hk
  rw [Finsupp.update_apply]
  split
  case isTrue he =>
    subst he
    rw [toMap_key hd hi, entry_apply_self hi, ← hs, entry_apply_self hsl] at hk
    rw [← hs]
    omega
  case isFalse hne =>
    rw [entry_apply_of_ne (Ne.symm hne), entry_apply_of_ne (by rw [hs]; exact Ne.symm hne)] at hk
    exact hk

/-- Filling a free slot with a new key updates the map there. -/
theorem toMap_set_fresh (hi : ¬ L.Live v[i]) (hs : L.Live s)
    (hfresh : ∀ j : Fin n, L.key v[j] ≠ L.key s) :
    L.toMap (v.set i s i.isLt) = (L.toMap v).update (L.key s) (L.amount s) := by
  ext k
  have hk := DFunLike.congr_fun (toMap_set (L := L) v i s) k
  rw [Finsupp.add_apply, Finsupp.add_apply, entry_free hi] at hk
  rw [Finsupp.update_apply]
  split
  case isTrue he =>
    subst he
    rw [toMap_absent hfresh, entry_apply_self hs] at hk
    simpa using hk
  case isFalse hne =>
    rw [entry_apply_of_ne (Ne.symm hne)] at hk
    simpa using hk

/-- Clearing a live slot removes its key. -/
theorem toMap_set_free (hd : L.Distinct v) (hi : L.Live v[i]) (hs : ¬ L.Live s) :
    L.toMap (v.set i s i.isLt) = (L.toMap v).update (L.key v[i]) 0 := by
  ext k
  have hk := DFunLike.congr_fun (toMap_set (L := L) v i s) k
  rw [Finsupp.add_apply, Finsupp.add_apply, entry_free hs] at hk
  rw [Finsupp.update_apply]
  split
  case isTrue he =>
    subst he
    rw [toMap_key hd hi, entry_apply_self hi] at hk
    simpa using hk
  case isFalse hne =>
    rw [entry_apply_of_ne (Ne.symm hne)] at hk
    simpa using hk

/-! ### Totals under one key -/

variable {M : Type*} [AddCommMonoid M]

variable (L) in
/-- The sum of `f` over the slots that stand under one key. -/
def totalAt (f : σ → M) (v : Vector σ n) (k : κ) : M :=
  ∑ i : Fin n, if L.key v[i] = k then f v[i] else 0

theorem totalAt_set (f : σ → M) (v : Vector σ n) (i : Fin n) (s : σ) (k : κ) :
    L.totalAt f (v.set i s i.isLt) k + (if L.key v[i] = k then f v[i] else 0) =
      L.totalAt f v k + (if L.key s = k then f s else 0) :=
  sum_set (fun s => if L.key s = k then f s else 0) v i s

/-- Only the slots under the key matter. -/
theorem totalAt_congr {f : σ → M} {v v' : Vector σ n} {k : κ}
    (h : ∀ i : Fin n, L.key v'[i] = L.key v[i] ∧ (L.key v[i] = k → f v'[i] = f v[i])) :
    L.totalAt f v' k = L.totalAt f v k := by
  refine Finset.sum_congr rfl fun i _ => ?_
  rw [(h i).1]
  split
  case isTrue hk => exact (h i).2 hk
  case isFalse => rfl

section Order

variable [PartialOrder M] [IsOrderedAddMonoid M]

theorem totalAt_le {f : σ → M} {v v' : Vector σ n}
    (h : ∀ i : Fin n, L.key v'[i] = L.key v[i] ∧ f v'[i] ≤ f v[i]) (k : κ) :
    L.totalAt f v' k ≤ L.totalAt f v k := by
  refine Finset.sum_le_sum fun i _ => ?_
  rw [(h i).1]
  split
  · exact (h i).2
  · exact le_refl _

theorem totalAt_nonneg {f : σ → M} (hf : ∀ s, 0 ≤ f s) (v : Vector σ n) (k : κ) :
    0 ≤ L.totalAt f v k := by
  refine Finset.sum_nonneg fun i _ => ?_
  split
  · exact hf _
  · exact le_refl _

end Order

variable (L) in
/-- The table as a bounded map. -/
noncomputable def abs (v : Vector σ n) : CapMap κ n := ⟨L.toMap v, card_support_toMap_le v⟩

end Layout

end Kit
