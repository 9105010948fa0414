import Mathlib.Data.List.Nodup
import WalletHub.Catalog
import WalletHub.Proofs.Registry

/-!
# Catalogs keep registries

A catalog has its records in a table and the row of their handles beside it, and an operation that
reached only one of the two would lose records or bring them out of order without a word. None does:
the row has every handle of the table once and no other, and read along the row, the catalog is the
registry on which the same operations were carried out.

* `Synced`: the row and the table have the same handles.
* `Keeps`: a catalog and the registry that it keeps, with one lemma for each operation.
* `run_keeps`: a catalog keeps its registry, whatever is done.
* `run_refines`: what a catalog answers.
-/
namespace WalletHub

/-! ## Tables -/

namespace Table

variable {κ α : Type} [DecidableEq κ] {t t' : Table κ α} {k : κ} {a : α} {ks : List κ}

/-- A table is looked up like a registry. -/
theorem lookupIn_eq_findIn (k : κ) (ps : List (κ × α)) :
    lookupIn k ps = Registry.findIn k ps := by
  induction ps with
  | nil => rfl
  | cons p rest ih => simp only [lookupIn, Registry.findIn, ih]

theorem get?_eq_none_iff : t.get? k = none ↔ k ∉ t.keys := by
  rw [get?, lookupIn_eq_findIn]
  exact Registry.findIn_eq_none_iff k t.pairs

theorem mem_keys_iff : k ∈ t.keys ↔ ∃ a, t.get? k = some a := by
  rw [← Option.ne_none_iff_exists', Ne, get?_eq_none_iff, not_not]

theorem get?_erase (t : Table κ α) (k k' : κ) :
    (t.erase k).get? k' = if k = k' then none else t.get? k' := by
  simp only [get?, erase, lookupIn_eq_findIn, Registry.findIn_filter_ne]

theorem keys_put_of_none (absent : t.get? k = none) : (t.put k a).keys = t.keys ++ [k] := by
  have key : ∀ ps : List (κ × α), lookupIn k ps = none → putIn k a ps = ps ++ [(k, a)] := by
    intro ps
    induction ps with
    | nil => exact fun _ => rfl
    | cons p rest ih =>
      obtain ⟨k', b⟩ := p
      intro none
      by_cases same : k' = k
      · simp [lookupIn, same] at none
      · simp only [lookupIn, same, if_false] at none
        simp only [putIn, same, if_false, ih none, List.cons_append]
  rw [keys, put, key t.pairs absent, List.map_append]
  rfl

theorem keys_put_of_some {b : α} (present : t.get? k = some b) : (t.put k a).keys = t.keys := by
  have key : ∀ ps : List (κ × α), lookupIn k ps = some b →
      (putIn k a ps).map Prod.fst = ps.map Prod.fst := by
    intro ps
    induction ps with
    | nil => exact fun found => by cases found
    | cons p rest ih =>
      obtain ⟨k', c⟩ := p
      intro found
      by_cases same : k' = k
      · simp [putIn, same]
      · simp only [lookupIn, same, if_false] at found
        simp only [putIn, same, if_false, List.map_cons, ih found]
  exact key t.pairs present

theorem keys_erase (t : Table κ α) (k : κ) : (t.erase k).keys = t.keys.filter (· ≠ k) := by
  rw [keys, erase, keys, List.filter_map]
  rfl

/-! ## Along a row of keys -/

theorem along_cons_of_some (present : t.get? k = some a) :
    t.along (k :: ks) = (k, a) :: t.along ks := by
  rw [along, List.filterMap_cons, present]
  rfl

theorem along_cons_of_none (absent : t.get? k = none) : t.along (k :: ks) = t.along ks := by
  rw [along, List.filterMap_cons, absent]
  rfl

theorem along_congr (same : ∀ k ∈ ks, t.get? k = t'.get? k) : t.along ks = t'.along ks :=
  List.filterMap_congr fun k hk => by rw [same k hk]

/-- What is put under a key that is not in the row is not seen along it. -/
theorem along_put_of_notMem (off : k ∉ ks) (a : α) : (t.put k a).along ks = t.along ks :=
  along_congr fun k' hk' => by
    have other : k ≠ k' := fun same => off (same ▸ hk')
    rw [get?_put, if_neg other]

theorem along_erase_of_notMem (off : k ∉ ks) : (t.erase k).along ks = t.along ks :=
  along_congr fun k' hk' => by
    have other : k ≠ k' := fun same => off (same ▸ hk')
    rw [get?_erase, if_neg other]

theorem findIn_along (t : Table κ α) (ks : List κ) (k : κ) :
    Registry.findIn k (t.along ks) = if k ∈ ks then t.get? k else none := by
  induction ks with
  | nil => rfl
  | cons k' ks ih =>
    cases found : t.get? k' with
    | none =>
      rw [along_cons_of_none found, ih]
      by_cases same : k = k'
      · simp [same, found]
      · simp [same]
    | some b =>
      rw [along_cons_of_some found, Registry.findIn, ih]
      by_cases same : k' = k
      · simp [same, ← found]
      · simp [same, Ne.symm same]

theorem map_fst_along (held : ∀ k ∈ ks, k ∈ t.keys) : (t.along ks).map Prod.fst = ks := by
  induction ks with
  | nil => rfl
  | cons k ks ih =>
    obtain ⟨a, found⟩ := mem_keys_iff.1 (held k List.mem_cons_self)
    have rest := ih fun k' hk' => held k' (List.mem_cons_of_mem k hk')
    rw [along_cons_of_some found, List.map_cons, rest]

/-- A row has a key once, so that a new value is seen in one place. -/
theorem along_put {b : α} (distinct : ks.Nodup) (present : t.get? k = some b) (f : α → α) :
    (t.put k (f b)).along ks = Registry.modifyIn k f (t.along ks) := by
  induction ks with
  | nil => rfl
  | cons k' ks ih =>
    obtain ⟨off, distinct⟩ := List.nodup_cons.1 distinct
    by_cases same : k = k'
    · subst same
      rw [along_cons_of_some present, along_cons_of_some (by rw [get?_put, if_pos rfl]),
        along_put_of_notMem off, Registry.modifyIn, if_pos rfl]
    · have other : (t.put k (f b)).get? k' = t.get? k' := by rw [get?_put, if_neg same]
      cases found : t.get? k' with
      | none =>
        rw [along_cons_of_none found, along_cons_of_none (other.trans found), ih distinct]
      | some c =>
        rw [along_cons_of_some found, along_cons_of_some (other.trans found), ih distinct,
          Registry.modifyIn, if_neg (Ne.symm same)]

theorem along_erase (t : Table κ α) (ks : List κ) (k : κ) :
    (t.erase k).along (ks.filter (· ≠ k)) = (t.along ks).filter fun e => e.1 ≠ k := by
  rw [along_erase_of_notMem (by simp)]
  induction ks with
  | nil => rfl
  | cons k' ks ih =>
    by_cases same : k' = k
    · rw [List.filter_cons_of_neg (by simpa using same), ih]
      cases found : t.get? k' with
      | none => rw [along_cons_of_none found]
      | some b => rw [along_cons_of_some found, List.filter_cons_of_neg (by simpa using same)]
    · rw [List.filter_cons_of_pos (by simpa using same)]
      cases found : t.get? k' with
      | none => rw [along_cons_of_none found, along_cons_of_none found, ih]
      | some b =>
        rw [along_cons_of_some found, along_cons_of_some found, ih,
          List.filter_cons_of_pos (by simpa using same)]

end Table

/-- The registry after a record was to be found or made. -/
def Registry.afterTry {κ α ε : Type} [DecidableEq κ] (r : Registry κ α) (h : κ)
    (make : Except ε α) : Registry κ α :=
  match r.tryFindOrCreate h make with
  | .ok x => x.1
  | .error _ => r

namespace Catalog

variable {κ α σ : Type} [DecidableEq κ] {c : Catalog κ α} {r : Registry κ α} {h : κ} {a : α}

/-! ## Row and table -/

/-- The row and the table have the same handles, each of them once. -/
structure Synced (c : Catalog κ α) : Prop where
  distinct : c.order.Nodup
  keys : c.records.keys.Nodup
  held : ∀ h, h ∈ c.order ↔ h ∈ c.records.keys

omit [DecidableEq κ] in
theorem synced_empty : (empty : Catalog κ α).Synced :=
  ⟨List.nodup_nil, List.nodup_nil, fun _ => Iff.rfl⟩

namespace Synced

theorem find?_eq_none_iff (hc : c.Synced) : c.find? h = none ↔ h ∉ c.order := by
  rw [hc.held, find?, Table.get?_eq_none_iff]

omit [DecidableEq κ] in
theorem size (hc : c.Synced) : c.size = c.order.length := by
  have same : c.records.keys.Perm c.order :=
    (List.perm_ext_iff_of_nodup hc.keys hc.distinct).2 fun h => (hc.held h).symm
  rw [← same.length_eq, Table.keys, List.length_map]
  rfl

theorem handles (hc : c.Synced) : c.entries.map Prod.fst = c.handles :=
  Table.map_fst_along fun h hh => (hc.held h).1 hh

theorem enter (hc : c.Synced) (absent : c.find? h = none) : (c.enter h a).Synced where
  distinct := by
    have fresh := hc.distinct.concat (hc.find?_eq_none_iff.1 absent)
    rwa [List.concat_eq_append] at fresh
  keys := by
    have fresh := hc.keys.concat (Table.get?_eq_none_iff.1 absent)
    rw [List.concat_eq_append] at fresh
    rwa [Catalog.enter, Table.keys_put_of_none absent]
  held k := by
    rw [Catalog.enter, Table.keys_put_of_none absent, List.mem_append, List.mem_append, hc.held]

omit [DecidableEq κ] in
/-- New records under handles that have some change neither the row nor the keys. -/
theorem rewrite (hc : c.Synced) {t : Table κ α} (keys : t.keys = c.records.keys) :
    Synced { c with records := t } :=
  ⟨hc.distinct, keys ▸ hc.keys, fun h => keys ▸ hc.held h⟩

theorem remove (hc : c.Synced) (h : κ) : (c.remove h).1.Synced := by
  unfold Catalog.remove
  split
  · refine ⟨hc.distinct.filter _, ?_, fun k => ?_⟩
    · rw [Table.keys_erase]
      exact hc.keys.filter _
    · rw [Table.keys_erase, List.mem_filter, List.mem_filter, hc.held]
  · exact hc

end Synced

/-! ## Visits -/

/-- What a visit along a row leaves behind: the records beside the row are as they were, and those
along it are as a visitor of the entries leaves them. -/
theorem visitIn_spec (visit : σ → κ → α → σ × α) {ks : List κ} (distinct : ks.Nodup)
    (t : Table κ α) (s : σ) :
    (visitIn visit ks t s).1.keys = t.keys ∧
    (∀ k, k ∉ ks → (visitIn visit ks t s).1.get? k = t.get? k) ∧
    (visitIn visit ks t s).1.along ks = (Registry.visitIn visit (t.along ks) s).1 ∧
    (visitIn visit ks t s).2 = (Registry.visitIn visit (t.along ks) s).2 := by
  induction ks generalizing t s with
  | nil => exact ⟨rfl, fun _ _ => rfl, rfl, rfl⟩
  | cons k ks ih =>
    obtain ⟨off, distinct⟩ := List.nodup_cons.1 distinct
    cases found : t.get? k with
    | none =>
      obtain ⟨keys, beside, seen, told⟩ := ih distinct t s
      have still := (beside k off).trans found
      simp only [visitIn, found, Table.along_cons_of_none found, Table.along_cons_of_none still]
      refine ⟨keys, fun k' hk' => beside k' fun held => ?_, seen, told⟩
      exact hk' (List.mem_cons_of_mem k held)
    | some a =>
      obtain ⟨keys, beside, seen, told⟩ := ih distinct (t.put k (visit s k a).2) (visit s k a).1
      have changed := beside k off
      rw [Table.get?_put, if_pos rfl] at changed
      rw [Table.along_put_of_notMem off] at seen told
      simp only [visitIn, found, Table.along_cons_of_some found, Table.along_cons_of_some changed,
        Registry.visitIn, seen, told, and_true]
      refine ⟨keys.trans (Table.keys_put_of_some found), fun k' hk' => ?_⟩
      obtain ⟨other, rest⟩ := not_or.1 (mt List.mem_cons.2 hk')
      rw [beside k' rest, Table.get?_put, if_neg (Ne.symm other)]

/-- What is taken along a row are the records along it, and those beside it are left. -/
theorem takeIn_spec {ks : List κ} (distinct : ks.Nodup) (t : Table κ α) :
    (takeIn ks t).2 = t.along ks ∧ ∀ k, k ∈ (takeIn ks t).1.keys ↔ k ∈ t.keys ∧ k ∉ ks := by
  induction ks generalizing t with
  | nil => exact ⟨rfl, fun k => by simp [takeIn]⟩
  | cons k ks ih =>
    obtain ⟨off, distinct⟩ := List.nodup_cons.1 distinct
    cases found : t.get? k with
    | none =>
      obtain ⟨taken, left⟩ := ih distinct t
      have absent := Table.get?_eq_none_iff.1 found
      simp only [takeIn, found, Table.along_cons_of_none found]
      refine ⟨taken, fun k' => ?_⟩
      rw [left, List.mem_cons, not_or]
      exact ⟨fun ⟨held, rest⟩ => ⟨held, fun same => absent (same ▸ held), rest⟩,
        fun ⟨held, _, rest⟩ => ⟨held, rest⟩⟩
    | some a =>
      obtain ⟨taken, left⟩ := ih distinct (t.erase k)
      simp only [takeIn, found, Table.along_cons_of_some found]
      refine ⟨by rw [taken, Table.along_erase_of_notMem off], fun k' => ?_⟩
      rw [left, Table.keys_erase, List.mem_filter, decide_eq_true_iff, List.mem_cons, not_or,
        and_assoc]

/-! ## The registry of a catalog -/

/-- Read along its row, the catalog is the registry. -/
structure Keeps (c : Catalog κ α) (r : Registry κ α) : Prop extends c.Synced where
  entries : c.entries = r.entries

namespace Keeps

theorem empty : (Catalog.empty : Catalog κ α).Keeps .empty := ⟨synced_empty, rfl⟩

theorem find? (hk : c.Keeps r) (h : κ) : c.find? h = r.find? h := by
  have along : r.find? h = if h ∈ c.order then c.find? h else none := by
    rw [Registry.find?, ← hk.entries]
    exact Table.findIn_along c.records c.order h
  rw [along]
  split
  · rfl
  · rename_i off
    exact hk.find?_eq_none_iff.2 off

theorem contains (hk : c.Keeps r) (h : κ) : c.contains h = r.contains h :=
  congrArg Option.isSome (hk.find? h)

theorem handles (hk : c.Keeps r) : c.handles = r.handles := by
  rw [← hk.toSynced.handles, hk.entries]
  rfl

theorem size (hk : c.Keeps r) : c.size = r.size := by
  have handles := congrArg List.length hk.handles
  rw [hk.toSynced.size]
  exact handles.trans (List.length_map _)

theorem isEmpty (hk : c.Keeps r) : c.isEmpty = r.isEmpty := by
  rw [Catalog.isEmpty, hk.size, Registry.size, Registry.isEmpty]
  cases r.entries <;> rfl

/-- A new record goes to the end. -/
theorem enter (hk : c.Keeps r) (absent : c.find? h = none) :
    (c.enter h a).Keeps ⟨r.entries ++ [(h, a)]⟩ where
  toSynced := hk.toSynced.enter absent
  entries := by
    have fresh := hk.find?_eq_none_iff.1 absent
    have last : (c.records.put h a).along [h] = [(h, a)] :=
      Table.along_cons_of_some (by rw [Table.get?_put, if_pos rfl])
    have split : (c.enter h a).entries =
        (c.records.put h a).along c.order ++ (c.records.put h a).along [h] :=
      List.filterMap_append
    rw [split, last, Table.along_put_of_notMem fresh]
    exact congrArg (· ++ [(h, a)]) hk.entries

theorem findOrCreate (hk : c.Keeps r) (h : κ) (a : α) :
    (c.findOrCreate h a).1.Keeps (r.findOrCreate h a).1 ∧
      (c.findOrCreate h a).2 = (r.findOrCreate h a).2 := by
  cases found : c.find? h with
  | some b =>
    rw [Registry.findOrCreate_of_find?_some a ((hk.find? h).symm.trans found), Catalog.findOrCreate,
      found]
    exact ⟨hk, rfl⟩
  | none =>
    rw [Registry.findOrCreate_of_find?_none a ((hk.find? h).symm.trans found), Catalog.findOrCreate,
      found]
    exact ⟨hk.enter found, rfl⟩

theorem tryFindOrCreate {ε : Type} (hk : c.Keeps r) (h : κ) (make : Except ε α) :
    (c.tryFindOrCreate h make).1.Keeps (r.afterTry h make) ∧
      (c.tryFindOrCreate h make).2 = (r.tryFindOrCreate h make).map (·.2) := by
  have same := hk.find? h
  cases found : c.find? h with
  | some b =>
    simp only [Registry.afterTry, Registry.tryFindOrCreate, ← same, Catalog.tryFindOrCreate, found]
    exact ⟨hk, rfl⟩
  | none =>
    simp only [Registry.afterTry, Registry.tryFindOrCreate, ← same, Catalog.tryFindOrCreate, found]
    cases make with
    | error e => exact ⟨hk, rfl⟩
    | ok a => exact ⟨hk.enter found, rfl⟩

theorem modify (hk : c.Keeps r) (h : κ) (f : α → α) : (c.modify h f).Keeps (r.modify h f) := by
  cases found : c.find? h with
  | none =>
    rw [Registry.modify_none f ((hk.find? h).symm.trans found), Catalog.modify, found]
    exact hk
  | some a =>
    rw [Catalog.modify, found]
    refine ⟨hk.rewrite (Table.keys_put_of_some found), ?_⟩
    rw [Registry.modify, ← hk.entries]
    exact Table.along_put hk.distinct found f

theorem remove (hk : c.Keeps r) (h : κ) :
    (c.remove h).1.Keeps (r.remove h).1 ∧ (c.remove h).2 = (r.remove h).2 := by
  have same := hk.find? h
  refine ⟨⟨hk.toSynced.remove h, ?_⟩, ?_⟩
  · rw [Registry.remove, ← hk.entries]
    cases found : c.find? h with
    | some a =>
      rw [Catalog.remove, found]
      exact Table.along_erase c.records c.order h
    | none =>
      rw [Catalog.remove, found]
      refine (List.filter_eq_self.2 fun e he => ?_).symm
      have listed : e.1 ∈ c.order := by
        rw [← Catalog.handles, ← hk.toSynced.handles]
        exact List.mem_map_of_mem he
      have other : e.1 ≠ h := fun eq => hk.find?_eq_none_iff.1 found (eq ▸ listed)
      simpa using other
  · rw [Registry.remove, ← same]
    cases found : c.find? h <;> rw [Catalog.remove, found]

theorem visitAll (hk : c.Keeps r) (visit : σ → κ → α → σ × α) (s : σ) :
    (c.visitAll visit s).1.Keeps (r.visitAll visit s).1 ∧
      (c.visitAll visit s).2 = (r.visitAll visit s).2 := by
  obtain ⟨keys, -, seen, told⟩ := visitIn_spec visit hk.distinct c.records s
  have listed : c.records.along c.order = r.entries := hk.entries
  rw [listed] at seen told
  exact ⟨⟨hk.rewrite keys, seen⟩, told⟩

/-- Nothing is left in the table either. -/
theorem drain (hk : c.Keeps r) :
    c.drain = (Catalog.empty, r.entries) := by
  obtain ⟨taken, left⟩ := takeIn_spec hk.distinct c.records
  have nothing : (takeIn c.order c.records).1.keys = [] :=
    List.eq_nil_iff_forall_not_mem.2 fun k held =>
      ((left k).1 held).2 ((hk.held k).2 ((left k).1 held).1)
  have none : (takeIn c.order c.records).1 = .empty :=
    congrArg Table.mk (List.map_eq_nil_iff.1 nothing)
  rw [Catalog.drain, Catalog.empty, ← none, ← hk.entries, Catalog.entries, ← taken]

end Keeps

end Catalog

/-! ## Runs -/

namespace Registry

variable {κ α : Type} [DecidableEq κ]

/-- What is done to a registry, or to the catalog that keeps it. -/
inductive Op (κ α : Type) : Type 1
  | findOrCreate (h : κ) (make : α)
  | tryFindOrCreate {ε : Type} (h : κ) (make : Except ε α)
  | modify (h : κ) (f : α → α)
  | remove (h : κ)
  | visitAll {σ : Type} (visit : σ → κ → α → σ × α) (s : σ)
  | drain

def apply (r : Registry κ α) : Op κ α → Registry κ α
  | .findOrCreate h make => (r.findOrCreate h make).1
  | .tryFindOrCreate h make => r.afterTry h make
  | .modify h f => r.modify h f
  | .remove h => (r.remove h).1
  | .visitAll visit s => (r.visitAll visit s).1
  | .drain => r.drain.1

def run (ops : List (Op κ α)) : Registry κ α := ops.foldl apply .empty

end Registry

namespace Catalog

variable {κ α : Type} [DecidableEq κ] {c : Catalog κ α} {r : Registry κ α}

def apply (c : Catalog κ α) : Registry.Op κ α → Catalog κ α
  | .findOrCreate h make => (c.findOrCreate h make).1
  | .tryFindOrCreate h make => (c.tryFindOrCreate h make).1
  | .modify h f => c.modify h f
  | .remove h => (c.remove h).1
  | .visitAll visit s => (c.visitAll visit s).1
  | .drain => c.drain.1

def run (ops : List (Registry.Op κ α)) : Catalog κ α := ops.foldl apply .empty

/-- **Steps.** Every operation goes to the catalog as it goes to the registry. -/
theorem Keeps.apply (hk : c.Keeps r) (op : Registry.Op κ α) : (c.apply op).Keeps (r.apply op) := by
  cases op with
  | findOrCreate h make => exact (hk.findOrCreate h make).1
  | tryFindOrCreate h make => exact (hk.tryFindOrCreate h make).1
  | modify h f => exact hk.modify h f
  | remove h => exact (hk.remove h).1
  | visitAll visit s => exact (hk.visitAll visit s).1
  | drain =>
    rw [Catalog.apply, hk.drain]
    exact .empty

/-- **Runs.** A catalog keeps its registry, whatever is done. -/
theorem run_keeps (ops : List (Registry.Op κ α)) : (run ops).Keeps (Registry.run ops) := by
  have onward : ∀ {c : Catalog κ α} {r : Registry κ α}, c.Keeps r →
      (ops.foldl apply c).Keeps (ops.foldl Registry.apply r) := by
    induction ops with
    | nil => exact id
    | cons op ops ih => exact fun hk => ih (hk.apply op)
  exact onward .empty

/-- A catalog answers like a registry, whatever it is asked. -/
structure Answers (c : Catalog κ α) (r : Registry κ α) : Prop where
  find? : ∀ h, c.find? h = r.find? h
  contains : ∀ h, c.contains h = r.contains h
  size : c.size = r.size
  isEmpty : c.isEmpty = r.isEmpty
  handles : c.handles = r.handles
  entries : c.entries = r.entries
  findOrCreate : ∀ h a, (c.findOrCreate h a).2 = (r.findOrCreate h a).2
  tryFindOrCreate : ∀ (ε : Type) h (make : Except ε α),
    (c.tryFindOrCreate h make).2 = (r.tryFindOrCreate h make).map (·.2)
  remove : ∀ h, (c.remove h).2 = (r.remove h).2
  visitAll : ∀ (σ : Type) (visit : σ → κ → α → σ × α) s,
    (c.visitAll visit s).2 = (r.visitAll visit s).2
  /-- All entries are given away, and nothing is left. -/
  drain : c.drain = (.empty, r.entries)

theorem Keeps.answers (hk : c.Keeps r) : c.Answers r where
  find? := hk.find?
  contains := hk.contains
  size := hk.size
  isEmpty := hk.isEmpty
  handles := hk.handles
  entries := hk.entries
  findOrCreate h a := (hk.findOrCreate h a).2
  tryFindOrCreate _ h make := (hk.tryFindOrCreate h make).2
  remove h := (hk.remove h).2
  visitAll _ visit s := (hk.visitAll visit s).2
  drain := hk.drain

/-- A record that is there is not made again. -/
theorem findOrCreate_of_some {h : κ} {b : α} (found : c.find? h = some b) :
    (∀ a, c.findOrCreate h a = (c, b, false)) ∧
      ∀ (ε : Type) (make : Except ε α), c.tryFindOrCreate h make = (c, .ok (b, false)) := by
  refine ⟨fun a => ?_, fun ε make => ?_⟩
  · rw [findOrCreate, found]
  · simp only [tryFindOrCreate, found]

theorem find?_of_not_contains {h : κ} (absent : c.contains h = false) : c.find? h = none := by
  rwa [contains, Option.isSome_eq_false_iff, Option.isNone_iff_eq_none] at absent

/-- A making that succeeds is no different from a record at hand. -/
theorem tryFindOrCreate_ok {ε : Type} (c : Catalog κ α) (h : κ) (a : α) :
    c.tryFindOrCreate h (.ok a : Except ε α) =
      ((c.findOrCreate h a).1, .ok (c.findOrCreate h a).2) := by
  cases found : c.find? h with
  | some b => simp only [tryFindOrCreate, findOrCreate, found]
  | none => simp only [tryFindOrCreate, findOrCreate, found]

/-- A record that is new goes to the end. -/
theorem Keeps.entries_new (hk : c.Keeps r) {h : κ} (absent : c.find? h = none) (a : α) :
    (c.findOrCreate h a).1.entries = c.entries ++ [(h, a)] := by
  have entered := (hk.findOrCreate h a).1.entries
  rwa [Registry.findOrCreate_of_find?_none a ((hk.find? h).symm.trans absent), ← hk.entries]
    at entered

/-- What was removed and comes again goes to the end. -/
theorem Keeps.entries_again (hk : c.Keeps r) (h : κ) (a : α) :
    ((c.remove h).1.findOrCreate h a).1.entries =
      c.entries.filter (fun e => e.1 ≠ h) ++ [(h, a)] := by
  have after := (hk.remove h).1
  have gone : (c.remove h).1.find? h = none := by
    rw [after.find?, ← Registry.erase, Registry.find?_erase, if_pos rfl]
  rw [after.entries_new gone, after.entries, hk.entries]
  rfl

/-- **Catalogs.** Whatever is done to a catalog, its row and its table have the same handles, each
of them once, and it answers like the row of entries on which the same was done: in the order in
which the records came, without those that were removed. A record that is there is never made
again; a making that fails, and a removal of what is not there, change nothing; and what is new, or
was removed and comes again, goes to the end. -/
theorem run_refines (ops : List (Registry.Op κ α)) :
    (run ops).Synced ∧ (run ops).Answers (Registry.run ops) ∧
    (∀ h b, (run ops).find? h = some b →
      (∀ a, (run ops).findOrCreate h a = (run ops, b, false)) ∧
      ∀ (ε : Type) (make : Except ε α),
        (run ops).tryFindOrCreate h make = (run ops, .ok (b, false))) ∧
    (∀ h, (run ops).contains h = false →
      (∀ (ε : Type) (e : ε), (run ops).tryFindOrCreate h (.error e) = (run ops, .error e)) ∧
      (run ops).remove h = (run ops, none) ∧
      ∀ a, ((run ops).findOrCreate h a).1.entries = (run ops).entries ++ [(h, a)]) ∧
    (∀ (ε : Type) h a, (run ops).tryFindOrCreate h (.ok a : Except ε α) =
      (((run ops).findOrCreate h a).1, .ok ((run ops).findOrCreate h a).2)) ∧
    ∀ h a, (((run ops).remove h).1.findOrCreate h a).1.entries =
      (run ops).entries.filter (fun e => e.1 ≠ h) ++ [(h, a)] := by
  have keeps := run_keeps ops
  refine ⟨keeps.toSynced, keeps.answers, fun h b found => findOrCreate_of_some found,
    fun h absent => ?_, fun ε h a => tryFindOrCreate_ok (run ops) h a, keeps.entries_again⟩
  have none := find?_of_not_contains absent
  refine ⟨fun ε e => ?_, ?_, keeps.entries_new none⟩
  · simp only [tryFindOrCreate, none]
  · rw [remove, none]

/-- Four records come, one of them goes, another one cannot be made, all are changed, and the first
one goes and comes again. -/
def reshuffled : List (Registry.Op UInt64 Nat) :=
  [.findOrCreate 5 50, .findOrCreate 3 30, .findOrCreate 9 90, .findOrCreate 1 10, .remove 9,
    .tryFindOrCreate 7 (.error "bad payload"), .visitAll (fun n _ a => (n + 1, a + n)) 1,
    .remove 5, .findOrCreate 5 55]

theorem run_refines_reshuffled :
    (run reshuffled).entries = [(3, 32), (1, 13), (5, 55)] ∧
    (run reshuffled).findOrCreate 3 0 = (run reshuffled, 32, false) ∧
    (run reshuffled).tryFindOrCreate 7 (.error "bad payload") =
      (run reshuffled, .error "bad payload") ∧
    (run reshuffled).remove 9 = (run reshuffled, none) ∧
    ((run reshuffled).findOrCreate 9 99).1.entries = [(3, 32), (1, 13), (5, 55), (9, 99)] ∧
    (((run reshuffled).remove 3).1.findOrCreate 3 33).1.entries =
      [(1, 13), (5, 55), (3, 33)] := by
  obtain ⟨-, -, kept, absent, -, again⟩ := run_refines reshuffled
  obtain ⟨-, removed, added⟩ := absent 9 (by decide +kernel)
  have entries : (run reshuffled).entries = [(3, 32), (1, 13), (5, 55)] := by decide +kernel
  refine ⟨entries, (kept 3 32 (by decide +kernel)).1 0, (absent 7 (by decide +kernel)).1 _ _,
    removed, ?_, ?_⟩
  · rw [added, entries]
    rfl
  · rw [again, entries]
    decide +kernel

end Catalog
end WalletHub
