import Mathlib.Data.List.Forall2
import WalletHub.Registry

/-!
# Registries as rows of entries

How look-ups see each way of changing a registry, and when two registries agree: they hold related
records under the same handles in the same order. Agreement is kept by every change made on both
sides, which is what lets one registry be rebuilt from a report of what was done to another.

* `find?_findOrCreate`, `find?_modify`, `find?_erase`: look-ups after a change.
* `handles_nodup_findOrCreate`, `handles_nodup_erase`: handles stay distinct.
* `All.findOrCreate`, `All.modify`, `All.erase`: what holds of every entry is kept.
* `Agree.findOrCreate`, `Agree.modify`, `Agree.erase`: agreement is kept.
-/
namespace WalletHub.Registry

variable {κ α β : Type} [DecidableEq κ]

/-! ## Look-ups -/

@[simp] theorem find?_empty (h : κ) : (empty : Registry κ α).find? h = none := rfl

theorem findOrCreate_of_find?_none {r : Registry κ α} {h : κ} (a : α) (hf : r.find? h = none) :
    r.findOrCreate h a = (⟨r.entries ++ [(h, a)]⟩, a, true) := by
  simp [findOrCreate, hf]

theorem findOrCreate_of_find?_some {r : Registry κ α} {h : κ} {b : α} (a : α)
    (hf : r.find? h = some b) : r.findOrCreate h a = (r, b, false) := by
  simp [findOrCreate, hf]

theorem find?_findOrCreate (r : Registry κ α) (h k : κ) (a : α) :
    (r.findOrCreate h a).1.find? k =
      if h = k then some ((r.find? h).getD a) else r.find? k := by
  cases hf : r.find? h with
  | none =>
    rw [findOrCreate_of_find?_none a hf]
    by_cases hk : h = k
    · subst hk
      have hnone : findIn h r.entries = none := hf
      simp [find?, findIn_append, hnone, findIn]
    · simp [find?, findIn_append, findIn, hk]
  | some b =>
    rw [findOrCreate_of_find?_some a hf]
    by_cases hk : h = k
    · subst hk; simp [hf]
    · simp [hk]

theorem findIn_filter_ne (h k : κ) (xs : List (κ × α)) :
    findIn k (xs.filter fun e => e.1 ≠ h) = if h = k then none else findIn k xs := by
  induction xs with
  | nil => simp [findIn]
  | cons e rest ih =>
    obtain ⟨h', a⟩ := e
    by_cases hk : h = k
    · subst hk
      by_cases he : h' = h <;> simp_all [findIn]
    · by_cases he : h' = h
      · subst he; simp_all [findIn]
      · by_cases hk' : h' = k <;> simp_all [findIn]

theorem find?_erase (r : Registry κ α) (h k : κ) :
    (r.erase h).find? k = if h = k then none else r.find? k :=
  findIn_filter_ne h k r.entries

theorem findIn_of_mem {h : κ} {a : α} :
    ∀ {xs : List (κ × α)}, (xs.map Prod.fst).Nodup → (h, a) ∈ xs → findIn h xs = some a
  | (h', b) :: rest, hn, hm => by
    simp only [List.map_cons, List.nodup_cons] at hn
    rcases List.mem_cons.1 hm with he | hm
    · cases he; simp [findIn]
    · have hne : h' ≠ h := fun he => hn.1 (List.mem_map.2 ⟨(h, a), hm, he.symm⟩)
      simp only [findIn, hne, if_false]
      exact findIn_of_mem hn.2 hm

/-! ## Changes that cancel or repeat -/

theorem modifyIn_const_self (h : κ) (a : α) :
    ∀ xs : List (κ × α), findIn h xs = some a → modifyIn h (fun _ => a) xs = xs
  | [], hf => by cases hf
  | (h', b) :: rest, hf => by
    by_cases he : h' = h
    · simp only [findIn, he, if_true, Option.some.injEq] at hf
      simp [modifyIn, he, hf]
    · simp only [findIn, he, if_false] at hf
      simp [modifyIn, he, modifyIn_const_self h a rest hf]

/-- Writing back what is there changes nothing. -/
theorem modify_const_self {r : Registry κ α} {h : κ} {a : α} (hf : r.find? h = some a) :
    (r.modify h fun _ => a) = r := by
  simp only [modify, modifyIn_const_self h a r.entries hf]

theorem modifyIn_modifyIn (h : κ) (f g : α → α) (xs : List (κ × α)) :
    modifyIn h g (modifyIn h f xs) = modifyIn h (fun a => g (f a)) xs := by
  induction xs with
  | nil => rfl
  | cons e rest ih =>
    obtain ⟨h', a⟩ := e
    by_cases he : h' = h <;> simp [modifyIn, he, ih]

@[simp] theorem modify_modify (r : Registry κ α) (h : κ) (f g : α → α) :
    (r.modify h f).modify h g = r.modify h fun a => g (f a) := by
  simp only [modify, modifyIn_modifyIn]

/-- Changes of records under different handles can change places. -/
theorem modify_comm (r : Registry κ α) {h k : κ} (apart : h ≠ k) (f g : α → α) :
    (r.modify h f).modify k g = (r.modify k g).modify h f := by
  have key : ∀ xs : List (κ × α),
      modifyIn k g (modifyIn h f xs) = modifyIn h f (modifyIn k g xs) := by
    intro xs
    induction xs with
    | nil => rfl
    | cons e rest ih =>
      obtain ⟨h', a⟩ := e
      by_cases hh : h' = h
      · subst hh
        simp [modifyIn, apart]
      · by_cases hk : h' = k
        · subst hk
          simp [modifyIn, hh]
        · simp [modifyIn, hh, hk, ih]
  simp only [modify, key]

@[simp] theorem modify_id (r : Registry κ α) (h : κ) : (r.modify h fun a => a) = r := by
  have key : ∀ xs : List (κ × α), modifyIn h (fun a => a) xs = xs := by
    intro xs
    induction xs with
    | nil => rfl
    | cons e rest ih =>
      obtain ⟨h', a⟩ := e
      by_cases he : h' = h <;> simp [modifyIn, he, ih]
  simp only [modify, key]

/-- There is nothing to change under an unknown handle. -/
theorem modify_none {r : Registry κ α} {h : κ} (f : α → α) (hf : r.find? h = none) :
    r.modify h f = r := by
  have key : ∀ xs : List (κ × α), findIn h xs = none → modifyIn h f xs = xs := by
    intro xs
    induction xs with
    | nil => intro _; rfl
    | cons e rest ih =>
      obtain ⟨h', a⟩ := e
      intro hx
      by_cases he : h' = h
      · simp [findIn, he] at hx
      · simp only [findIn, he, if_false] at hx
        simp [modifyIn, he, ih hx]
  simp only [modify, key r.entries hf]

theorem modify_find?_self {r : Registry κ α} {h : κ} {a : α} (b : α) (hf : r.find? h = some a) :
    (r.modify h fun _ => b).find? h = some b := by
  simp [find?_modify, hf]

/-- Only the record that is there counts when it is changed. -/
theorem modify_congr {r : Registry κ α} {h : κ} {a : α} {f : α → α} (hf : r.find? h = some a) :
    r.modify h f = r.modify h fun _ => f a := by
  have key : ∀ xs : List (κ × α), findIn h xs = some a →
      modifyIn h f xs = modifyIn h (fun _ => f a) xs := by
    intro xs
    induction xs with
    | nil => intro _; rfl
    | cons e rest ih =>
      obtain ⟨h', b⟩ := e
      intro hx
      by_cases he : h' = h
      · simp only [findIn, he, if_true, Option.some.injEq] at hx
        simp [modifyIn, he, hx]
      · simp only [findIn, he, if_false] at hx
        simp [modifyIn, he, ih hx]
  simp only [modify, key r.entries hf]

theorem erase_modify (r : Registry κ α) (h : κ) (f : α → α) :
    (r.modify h f).erase h = r.erase h := by
  have key : ∀ xs : List (κ × α), (modifyIn h f xs).filter (fun e => e.1 ≠ h) =
      xs.filter fun e => e.1 ≠ h := by
    intro xs
    induction xs with
    | nil => rfl
    | cons e rest ih =>
      obtain ⟨h', a⟩ := e
      by_cases he : h' = h
      · simp [modifyIn, he]
      · simp only [modifyIn, he, if_false, List.filter_cons, ih]
  simp only [erase, remove, modify, key]

/-- A record changed right after it was added is a record added in its changed form. -/
theorem modify_findOrCreate {r : Registry κ α} {h : κ} (a b : α) (hf : r.find? h = none) :
    ((r.findOrCreate h a).1.modify h fun _ => b) = (r.findOrCreate h b).1 := by
  have key : ∀ xs : List (κ × α), findIn h xs = none →
      modifyIn h (fun _ => b) (xs ++ [(h, a)]) = xs ++ [(h, b)] := by
    intro xs
    induction xs with
    | nil => intro _; simp [modifyIn]
    | cons e rest ih =>
      obtain ⟨h', c⟩ := e
      intro hx
      by_cases he : h' = h
      · simp [findIn, he] at hx
      · simp only [findIn, he, if_false] at hx
        simp [modifyIn, he, ih hx]
  simp only [findOrCreate_of_find?_none a hf, findOrCreate_of_find?_none b hf, modify,
    key r.entries hf]

/-! ## Distinct handles -/

theorem handles_findOrCreate {r : Registry κ α} {h : κ} (a : α) (hf : r.find? h = none) :
    (r.findOrCreate h a).1.handles = r.handles ++ [h] := by
  rw [findOrCreate_of_find?_none a hf]; simp [handles]

theorem handles_nodup_findOrCreate {r : Registry κ α} (h : κ) (a : α) (hn : r.handles.Nodup) :
    (r.findOrCreate h a).1.handles.Nodup := by
  cases hf : r.find? h with
  | some b => rw [findOrCreate_of_find?_some a hf]; exact hn
  | none =>
    rw [handles_findOrCreate a hf, List.nodup_append]
    refine ⟨hn, by simp, ?_⟩
    intro x hx y hy hxy
    rw [List.mem_singleton] at hy
    subst hy; subst hxy
    exact (find?_eq_none_iff r x).1 hf hx

theorem handles_nodup_erase {r : Registry κ α} (h : κ) (hn : r.handles.Nodup) :
    (r.erase h).handles.Nodup :=
  (List.filter_sublist.map Prod.fst).nodup hn

/-- A first entry taken away leaves the rest. -/
theorem erase_head {h : κ} {a : α} {rest : List (κ × α)}
    (hn : (Registry.handles ⟨(h, a) :: rest⟩).Nodup) :
    (Registry.mk ((h, a) :: rest)).erase h = ⟨rest⟩ := by
  simp only [handles, List.map_cons, List.nodup_cons] at hn
  have hne : ∀ e ∈ rest, decide (e.1 ≠ h) = true := by
    intro e he
    simp only [ne_eq, decide_eq_true_eq]
    intro heq
    exact hn.1 (List.mem_map.2 ⟨e, he, heq⟩)
  simp only [erase, remove, List.filter_cons, ne_eq, not_true_eq_false, decide_false,
    Bool.false_eq_true, if_false]
  rw [List.filter_eq_self.2 hne]

/-! ## Every entry -/

/-- Every record is in order under the handle it is filed under. -/
def All (P : κ → α → Prop) (r : Registry κ α) : Prop := ∀ e ∈ r.entries, P e.1 e.2

theorem mem_of_findIn {h : κ} {a : α} :
    ∀ {xs : List (κ × α)}, findIn h xs = some a → (h, a) ∈ xs
  | (h', b) :: rest, hf => by
    by_cases he : h' = h
    · simp only [findIn, he, if_true, Option.some.injEq] at hf
      simp [he, hf]
    · simp only [findIn, he, if_false] at hf
      exact List.mem_cons_of_mem _ (mem_of_findIn hf)

theorem mem_modifyIn_const {h : κ} {b : α} {e : κ × α} :
    ∀ {xs : List (κ × α)}, e ∈ modifyIn h (fun _ => b) xs → e ∈ xs ∨ e = (h, b)
  | (h', a) :: rest, hm => by
    by_cases he : h' = h
    · simp only [modifyIn, he, if_true, List.mem_cons] at hm
      rcases hm with rfl | hm
      · exact .inr rfl
      · exact .inl (List.mem_cons_of_mem _ hm)
    · simp only [modifyIn, he, if_false, List.mem_cons] at hm
      rcases hm with rfl | hm
      · exact .inl List.mem_cons_self
      · exact (mem_modifyIn_const hm).imp_left (List.mem_cons_of_mem _)

namespace All

variable {P : κ → α → Prop} {r : Registry κ α}

omit [DecidableEq κ] in
theorem empty : All P (Registry.empty : Registry κ α) := fun _ he => by cases he

theorem find? (h : r.All P) {k : κ} {a : α} (hf : r.find? k = some a) : P k a :=
  h (k, a) (mem_of_findIn hf)

theorem findOrCreate (h : r.All P) {k : κ} {a : α} (ha : P k a) :
    (r.findOrCreate k a).1.All P := by
  cases hf : r.find? k with
  | some b => rw [findOrCreate_of_find?_some a hf]; exact h
  | none =>
    rw [findOrCreate_of_find?_none a hf]
    intro e he
    rcases List.mem_append.1 he with he | he
    · exact h e he
    · rw [List.mem_singleton] at he
      subst he
      exact ha

theorem modify (h : r.All P) {k : κ} {b : α} (hb : P k b) : (r.modify k fun _ => b).All P := by
  intro e he
  rcases mem_modifyIn_const he with he | rfl
  · exact h e he
  · exact hb

theorem erase (h : r.All P) (k : κ) : (r.erase k).All P :=
  fun e he => h e (List.mem_filter.1 he).1

end All

/-! ## Agreement -/

/-- Related records under the same handles, in the same order. -/
def Agree (R : α → β → Prop) (r : Registry κ α) (s : Registry κ β) : Prop :=
  List.Forall₂ (fun x y => x.1 = y.1 ∧ R x.2 y.2) r.entries s.entries

namespace Agree

variable {R : α → β → Prop} {r : Registry κ α} {s : Registry κ β}

omit [DecidableEq κ] in
theorem empty : Agree R (Registry.empty : Registry κ α) (Registry.empty : Registry κ β) :=
  List.Forall₂.nil

omit [DecidableEq κ] in
theorem comp {γ : Type} {S : β → γ → Prop} {T : α → γ → Prop} {u : Registry κ γ}
    (h : Agree R r s) (h' : Agree S s u) (hT : ∀ a b c, R a b → S b c → T a c) : Agree T r u := by
  have key : ∀ {xs : List (κ × α)} {ys : List (κ × β)} {zs : List (κ × γ)},
      List.Forall₂ (fun x y => x.1 = y.1 ∧ R x.2 y.2) xs ys →
        List.Forall₂ (fun y z => y.1 = z.1 ∧ S y.2 z.2) ys zs →
          List.Forall₂ (fun x z => x.1 = z.1 ∧ T x.2 z.2) xs zs := by
    intro xs ys zs hxy
    induction hxy generalizing zs with
    | nil => intro hyz; cases hyz; exact List.Forall₂.nil
    | cons he _ ih =>
      intro hyz
      cases hyz with
      | cons he' hrest =>
        exact List.Forall₂.cons ⟨he.1.trans he'.1, hT _ _ _ he.2 he'.2⟩ (ih hrest)
  exact key h h'

/-- What is found on both sides is related, and nothing is found on one side only. -/
theorem find? (h : Agree R r s) (k : κ) :
    (r.find? k = none ∧ s.find? k = none) ∨
      ∃ a b, r.find? k = some a ∧ s.find? k = some b ∧ R a b := by
  have key : ∀ {xs : List (κ × α)} {ys : List (κ × β)},
      List.Forall₂ (fun x y => x.1 = y.1 ∧ R x.2 y.2) xs ys →
        (findIn k xs = none ∧ findIn k ys = none) ∨
          ∃ a b, findIn k xs = some a ∧ findIn k ys = some b ∧ R a b := by
    intro xs ys hxy
    induction hxy with
    | nil => exact .inl ⟨rfl, rfl⟩
    | @cons x y _ _ he _ ih =>
      obtain ⟨hk, hr⟩ := he
      by_cases hx : x.1 = k
      · exact .inr ⟨x.2, y.2, by simp [findIn, hx], by simp [findIn, ← hk, hx], hr⟩
      · simpa [findIn, hx, ← hk] using ih
  exact key h

theorem findOrCreate (h : Agree R r s) (k : κ) {a : α} {b : β} (hab : R a b) :
    Agree R (r.findOrCreate k a).1 (s.findOrCreate k b).1 := by
  rcases h.find? k with ⟨hr, hs⟩ | ⟨a', b', hr, hs, -⟩
  · rw [findOrCreate_of_find?_none a hr, findOrCreate_of_find?_none b hs]
    exact List.rel_append h (List.Forall₂.cons ⟨rfl, hab⟩ List.Forall₂.nil)
  · rw [findOrCreate_of_find?_some a hr, findOrCreate_of_find?_some b hs]
    exact h

/-- A change made to both records under a handle keeps agreement if it keeps them related. -/
theorem modify (h : Agree R r s) (k : κ) {f : α → α} {g : β → β}
    (hfg : ∀ a b, r.find? k = some a → R a b → R (f a) (g b)) :
    Agree R (r.modify k f) (s.modify k g) := by
  have key : ∀ {xs : List (κ × α)} {ys : List (κ × β)},
      List.Forall₂ (fun x y => x.1 = y.1 ∧ R x.2 y.2) xs ys →
        (∀ a b, findIn k xs = some a → R a b → R (f a) (g b)) →
          List.Forall₂ (fun x y => x.1 = y.1 ∧ R x.2 y.2) (modifyIn k f xs) (modifyIn k g ys) := by
    intro xs ys hxy
    induction hxy with
    | nil => intro _; exact List.Forall₂.nil
    | @cons x y _ _ he ht ih =>
      obtain ⟨x₁, x₂⟩ := x
      obtain ⟨y₁, y₂⟩ := y
      obtain ⟨hk, hr⟩ := he
      dsimp only at hk hr
      subst hk
      intro hx
      by_cases hxk : x₁ = k
      · have hrel := hx x₂ y₂ (by simp [findIn, hxk]) hr
        simp only [modifyIn, hxk, if_true]
        exact List.Forall₂.cons ⟨rfl, hrel⟩ ht
      · simp only [modifyIn, hxk, if_false]
        refine List.Forall₂.cons ⟨rfl, hr⟩ (ih fun a b ha => hx a b ?_)
        simpa [findIn, hxk] using ha
  exact key h hfg

theorem erase (h : Agree R r s) (k : κ) : Agree R (r.erase k) (s.erase k) := by
  have key : ∀ {xs : List (κ × α)} {ys : List (κ × β)},
      List.Forall₂ (fun x y => x.1 = y.1 ∧ R x.2 y.2) xs ys →
        List.Forall₂ (fun x y => x.1 = y.1 ∧ R x.2 y.2)
          (xs.filter fun e => e.1 ≠ k) (ys.filter fun e => e.1 ≠ k) := by
    intro xs ys hxy
    induction hxy with
    | nil => exact List.Forall₂.nil
    | @cons x y _ _ he _ ih =>
      by_cases hx : x.1 = k
      · have hy : y.1 = k := he.1 ▸ hx
        simpa [List.filter_cons, hx, hy] using ih
      · have hy : ¬y.1 = k := he.1 ▸ hx
        rw [List.filter_cons_of_pos (by simpa using hx),
          List.filter_cons_of_pos (by simpa using hy)]
        exact List.Forall₂.cons he ih
  exact key h

end Agree
end WalletHub.Registry
