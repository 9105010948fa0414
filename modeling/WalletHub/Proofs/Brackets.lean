import WalletHub.Proofs.Change.Stages
import WalletHub.Proofs.Run

/-!
# Brackets

What is told of a record stands between its creation and its end, as often as it comes into being,
and all of it while the record that holds it is there: transfers within their wallets, wallets
within their managers, managers within the hub. A record ends after all that it holds. Wallets and
transfers may come again under the same key; a manager does not, because engines do not hand out a
number twice as long as their logs fit in memory (`Hub.Fits`).

* `Tree.Change.held`, `Tree.Change.quiet`, `Tree.Change.emptied`: the notices of one change.
* `notices_bracketed`: the notices of a run.
-/
namespace WalletHub

/-! ## Subjects -/

/-- What a notice is about. -/
inductive Subject where
  | hub
  | manager (handle : ManagerHandle)
  | wallet (path : WalletPath)
  | transfer (path : TransferPath)
  deriving DecidableEq

namespace Subject

/-- The subject that holds another one. -/
def parent : Subject → Option Subject
  | hub => none
  | manager _ => some hub
  | wallet p => some (manager p.manager)
  | transfer p => some (wallet p.parent)

variable {x : Subject}

/-- The hub holds the managers. -/
theorem parent_eq_hub : x.parent = some hub ↔ ∃ h, x = manager h := by
  cases x <;> simp [parent]

/-- A manager holds its wallets. -/
theorem parent_eq_manager {h : ManagerHandle} :
    x.parent = some (manager h) ↔ ∃ w, x = wallet ⟨h, w⟩ := by
  cases x with
  | hub | manager | transfer => simp [parent]
  | wallet p =>
    obtain ⟨k, w⟩ := p
    simp [parent]

/-- A wallet holds its transfers. -/
theorem parent_eq_wallet {p : WalletPath} :
    x.parent = some (wallet p) ↔ ∃ t, x = transfer (p.child t) := by
  cases x with
  | hub | manager | wallet => simp [parent]
  | transfer q =>
    obtain ⟨k, w, t⟩ := q
    obtain ⟨h, v⟩ := p
    simp [parent, TransferPath.parent, WalletPath.child]

/-- Transfers hold nothing. -/
theorem parent_ne_transfer (x : Subject) (p : TransferPath) : x.parent ≠ some (transfer p) := by
  cases x <;> simp [parent]

end Subject

namespace Notice

def subject : Notice → Subject
  | hub _ => .hub
  | manager h _ => .manager h
  | wallet p _ => .wallet p
  | transfer p _ => .transfer p

/-- Whether a notice is the creation of its subject, its end, or something between. -/
def stroke : Notice → Stroke
  | hub .created => .opens
  | hub .deleted => .closes
  | hub _ => .speaks
  | manager _ n => n.mark.stroke
  | wallet _ n => n.mark.stroke
  | transfer _ n => n.mark.stroke

/-- A change of a wallet neither makes nor ends it. -/
theorem InWallet.speaks {p : WalletPath} {n : Notice} (h : n.InWallet p)
    (hn : ∀ q, n.subject ≠ .transfer q) : n.stroke = .speaks := by
  cases n with
  | hub n => exact h.elim
  | manager k n => obtain ⟨-, rfl⟩ := h; rfl
  | wallet q n => cases n <;> first | rfl | exact h.2.elim
  | transfer q n => exact absurd rfl (hn q)

end Notice

/-- What notices say of the existence of a subject. -/
def strokes (x : Subject) (ns : List Notice) : List Stroke :=
  ns.filterMap fun n => if n.subject = x then some n.stroke else none

theorem strokes_append (x : Subject) (ns ms : List Notice) :
    strokes x (ns ++ ms) = strokes x ns ++ strokes x ms := List.filterMap_append ..

theorem mem_strokes {x : Subject} {ns : List Notice} {k : Stroke} :
    k ∈ strokes x ns ↔ ∃ n ∈ ns, n.subject = x ∧ n.stroke = k := by
  simp [strokes]

theorem strokes_eq_nil {x : Subject} {ns : List Notice} (h : ∀ n ∈ ns, n.subject ≠ x) :
    strokes x ns = [] :=
  List.eq_nil_iff_forall_not_mem.2 fun _ hk => by
    obtain ⟨n, hn, hx, -⟩ := mem_strokes.1 hk
    exact h n hn hx

/-- Notices say of the existence of a subject what they say of its life. -/
theorem strokes_of_marks {σ : Type} {x : Subject} {mark? : Notice → Option (Mark σ)}
    (h : ∀ n, (if n.subject = x then some n.stroke else none) = (mark? n).map (·.stroke))
    (ns : List Notice) : strokes x ns = (ns.filterMap mark?).map (·.stroke) := by
  rw [strokes, List.map_filterMap]
  exact List.filterMap_congr fun n _ => h n

theorem strokes_manager (h : ManagerHandle) (ns : List Notice) :
    strokes (.manager h) ns = (managerMarks h ns).map (·.stroke) := by
  refine strokes_of_marks (fun n => ?_) ns
  cases n with
  | manager k n => by_cases hk : k = h <;> simp [Notice.subject, Notice.stroke, managerMark?, hk]
  | hub | wallet | transfer => rfl

theorem strokes_wallet (p : WalletPath) (ns : List Notice) :
    strokes (.wallet p) ns = (walletMarks p ns).map (·.stroke) := by
  refine strokes_of_marks (fun n => ?_) ns
  cases n with
  | wallet q n => by_cases hk : q = p <;> simp [Notice.subject, Notice.stroke, walletMark?, hk]
  | hub | manager | transfer => rfl

theorem strokes_transfer (p : TransferPath) (ns : List Notice) :
    strokes (.transfer p) ns = (transferMarks p ns).map (·.stroke) := by
  refine strokes_of_marks (fun n => ?_) ns
  cases n with
  | transfer q n => by_cases hk : q = p <;> simp [Notice.subject, Notice.stroke, transferMark?, hk]
  | hub | manager | wallet => rfl

/-! ## Nesting -/

/-- A row that is open stays open as long as it is only spoken of. -/
theorem Row.speak {as bs : List Stroke} (h : Row as true) (hbs : ∀ b ∈ bs, b = .speaks) :
    Row (as ++ bs) true := by
  induction bs generalizing as with
  | nil => simpa using h
  | cons b bs ih =>
    obtain rfl := hbs b List.mem_cons_self
    have hrest := ih h.speaks fun x hx => hbs x (List.mem_cons_of_mem _ hx)
    simpa using hrest

/-- Every notice stands in the open bracket of what holds its subject, and when a bracket closes,
those that it holds are closed. -/
structure Nested (ns : List Notice) : Prop where
  within : ∀ before n after, ns = before ++ n :: after →
    ∀ y, n.subject.parent = some y → Row (strokes y before) true
  closed : ∀ before n after, ns = before ++ n :: after → n.stroke = .closes →
    ∀ x, x.parent = some n.subject → Row (strokes x before) false

theorem split_of_append {α : Type} {xs ys before after : List α} {a : α}
    (h : xs ++ ys = before ++ a :: after) :
    (∃ rest, xs = before ++ a :: rest) ∨ ∃ mid, before = xs ++ mid ∧ ys = mid ++ a :: after := by
  rcases List.append_eq_append_iff.1 h with ⟨mid, hb, hys⟩ | ⟨mid, hxs, hys⟩
  · exact .inr ⟨mid, hb, hys⟩
  · cases mid with
    | nil => exact .inr ⟨[], by simpa using hxs.symm, by simpa using hys.symm⟩
    | cons b mid =>
      simp only [List.cons_append, List.cons.injEq] at hys
      obtain ⟨rfl, -⟩ := hys
      exact .inl ⟨mid, hxs⟩

/-- More notices, all about subjects whose holders are there and say nothing but that they are, and
which end only when what they hold has ended. -/
theorem Nested.append {ns ms : List Notice} (h : Nested ns)
    (held : ∀ n ∈ ms, ∀ y, n.subject.parent = some y → Row (strokes y ns) true)
    (quiet : ∀ n ∈ ms, ∀ k ∈ ms, n.subject.parent = some k.subject → k.stroke = .speaks)
    (emptied : ∀ n ∈ ms, n.stroke = .closes → ∀ x, x.parent = some n.subject →
      Row (strokes x ns) false ∧ ∀ k ∈ ms, k.subject ≠ x) : Nested (ns ++ ms) := by
  refine ⟨fun before n after hsplit y hy => ?_, fun before n after hsplit hn x hx => ?_⟩
  · rcases split_of_append hsplit with ⟨rest, hns⟩ | ⟨mid, rfl, hms⟩
    · exact h.within before n rest hns y hy
    · have hmem : n ∈ ms := by simp [hms]
      rw [strokes_append]
      refine (held n hmem y hy).speak fun b hb => ?_
      obtain ⟨k, hk, rfl, rfl⟩ := mem_strokes.1 hb
      exact quiet n hmem k (by simp [hms, hk]) hy
  · rcases split_of_append hsplit with ⟨rest, hns⟩ | ⟨mid, rfl, hms⟩
    · exact h.closed before n rest hns hn x hx
    · obtain ⟨hclosed, hnone⟩ := emptied n (by simp [hms]) hn x hx
      have hmid : strokes x mid = [] := strokes_eq_nil fun k hk => hnone k (by simp [hms, hk])
      rwa [strokes_append, hmid, List.append_nil]

/-! ## The notices of one change -/

namespace Manager

variable {m m' : Manager} {ns : List Notice}

/-- Notices are about the manager itself, or about what it or one of its wallets holds. -/
theorem Change.held (hc : Change m ns m') :
    ∀ n ∈ ns, ∀ y, n.subject.parent = some y →
      y = .hub ∨ y = .manager m.handle ∨ ∃ h w, m.wallets.find? h = some w ∧
        y = .wallet ⟨m.handle, h⟩ := by
  intro n hn y hy
  have hin := hc.inManager n hn
  cases n with
  | hub => cases hy
  | manager => cases hy; exact .inl rfl
  | wallet p => cases hy; exact .inr (.inl (congrArg Subject.manager hin))
  | transfer p =>
    cases hy
    refine .inr (.inr ?_)
    cases hc with
    | confirmed wallet =>
      rw [List.mem_singleton] at hn
      cases hn
      exact ⟨_, _, wallet, rfl⟩
    | wallet known place change =>
      have hp : p.parent = _ := change.inWallet _ hn
      exact ⟨_, _, known, congrArg Subject.wallet (hp.trans place)⟩
    | moved | spoke | raised | modeSet | walletCreated | walletRetired | retired => simp at hn

/-- A record that holds another does not begin or end in a change of the other. -/
theorem Change.quiet (hc : Change m ns m') :
    ∀ n ∈ ns, ∀ k ∈ ns, n.subject.parent = some k.subject → k.stroke = .speaks := by
  intro n hn k hk hy
  cases hc with
  | wallet known place change =>
    exact (change.inWallet k hk).speaks fun q hq => n.subject.parent_ne_transfer q (hq ▸ hy)
  | moved | spoke | raised | confirmed =>
    rw [List.mem_singleton] at hn hk
    subst hn hk
    cases hy
  | modeSet => cases hn
  | walletCreated =>
    simp only [List.mem_cons, List.not_mem_nil, or_false] at hn hk
    rcases hn with rfl | rfl <;> rcases hk with rfl | rfl <;> first | rfl | cases hy
  | walletRetired | retired =>
    simp only [List.mem_cons, List.not_mem_nil, or_false] at hn hk
    rcases hn with rfl | rfl | rfl <;> rcases hk with rfl | rfl | rfl <;> first | rfl | cases hy

/-- A record that ends holds nothing. -/
theorem Change.emptied (hc : Change m ns m') :
    ∀ n ∈ ns, n.stroke = .closes → ∀ x, x.parent = some n.subject →
      ((∃ h, x = .wallet ⟨m.handle, h⟩ ∧ m.walletState? h = none) ∨
        ∃ h k, x = .transfer ⟨m.handle, h, k⟩ ∧ m.transferState? h k = none) ∧
      ∀ k ∈ ns, k.subject ≠ x := by
  intro n hn hclose x hx
  cases hc with
  | wallet known place change =>
    refine absurd hclose ?_
    by_cases hn' : ∃ q, n.subject = .transfer q
    · obtain ⟨q, hq⟩ := hn'
      exact absurd (hq ▸ hx) (x.parent_ne_transfer q)
    · rw [(change.inWallet n hn).speaks fun q hq => hn' ⟨q, hq⟩]
      decide
  | moved | raised | confirmed =>
    rw [List.mem_singleton] at hn
    subst hn
    cases hclose
  | @spoke n sync =>
    rw [List.mem_singleton] at hn
    subst hn
    cases n with
    | syncStarted | syncProgress | syncEnded => cases hclose
    | _ => cases sync
  | modeSet => cases hn
  | walletCreated =>
    simp only [List.mem_cons, List.not_mem_nil, or_false] at hn
    rcases hn with rfl | rfl <;> cases hclose
  | @walletRetired h w known born bare =>
    simp only [List.mem_cons, List.not_mem_nil, or_false] at hn
    rcases hn with rfl | rfl | rfl
    · cases hclose
    · obtain ⟨k, rfl⟩ := Subject.parent_eq_wallet.1 hx
      refine ⟨.inr ⟨h, k, rfl, ?_⟩, by simp [Notice.subject]⟩
      simp [transferState?, known, Wallet.transferState?, bare]
    · cases hclose
  | retired live bare =>
    simp only [List.mem_cons, List.not_mem_nil, or_false] at hn
    rcases hn with rfl | rfl | rfl
    · cases hclose
    · obtain ⟨h, rfl⟩ := Subject.parent_eq_manager.1 hx
      exact ⟨.inl ⟨h, rfl, by simp [walletState?, bare]⟩, by simp [Notice.subject]⟩
    · cases hclose

end Manager

namespace Tree

/-- Whether a record is there and not at its end. The hub is there as long as it has a tree. -/
def holds (t : Tree) : Subject → Bool
  | .hub => true
  | .manager h => alive .deleted (t.managerState? h)
  | .wallet p => alive .deleted (t.walletState? p)
  | .transfer p => alive .deleted (t.transferState? p)

variable {made : ManagerHandle → Prop} {guarded : Prop} {t t' : Tree} {ns ms : List Notice}

/-- What holds the subject of a notice is there before the change. -/
theorem Change.held (hc : Change made guarded t ns t') (ht : t.Sound) (hg : guarded) :
    ∀ n ∈ ns, ∀ y, n.subject.parent = some y → t.holds y = true := by
  intro n hn y hy
  cases hc with
  | indexed => cases hn
  | managerCreated =>
    simp only [List.mem_cons, List.not_mem_nil, or_false] at hn
    rcases hn with rfl | rfl
    · cases hy; rfl
    · cases hy
  | @manager m _ _ known step =>
    rcases step.2.held n hn y hy with rfl | rfl | ⟨h, w, hw, rfl⟩
    · rfl
    · simpa [holds, managerState?, known, alive] using step.1 hg
    · have born := (ht.sound known).born hw
      simp [holds, walletState?, known, Manager.walletState?, hw, born, alive]

theorem Change.quiet (hc : Change made guarded t ns t') :
    ∀ n ∈ ns, ∀ k ∈ ns, n.subject.parent = some k.subject → k.stroke = .speaks := by
  cases hc with
  | indexed => exact fun n hn => by cases hn
  | managerCreated =>
    intro n hn k hk hy
    simp only [List.mem_cons, List.not_mem_nil, or_false] at hn hk
    rcases hn with rfl | rfl <;> rcases hk with rfl | rfl <;> first | rfl | cases hy
  | manager _ step => exact step.2.quiet

theorem Change.emptied (hc : Change made guarded t ns t') :
    ∀ n ∈ ns, n.stroke = .closes → ∀ x, x.parent = some n.subject →
      t.holds x = false ∧ ∀ k ∈ ns, k.subject ≠ x := by
  intro n hn hclose x hx
  cases hc with
  | indexed => cases hn
  | managerCreated =>
    simp only [List.mem_cons, List.not_mem_nil, or_false] at hn
    rcases hn with rfl | rfl <;> cases hclose
  | @manager m _ _ known step =>
    obtain ⟨hnone, hns⟩ := step.2.emptied n hn hclose x hx
    refine ⟨?_, hns⟩
    rcases hnone with ⟨h, rfl, hnone⟩ | ⟨h, k, rfl, hnone⟩
    · simp [holds, walletState?, known, hnone, alive]
    · simp [holds, transferState?, known, hnone, alive]

/-- The hub is spoken of, but neither begins nor ends. -/
theorem Change.hub (hc : Change made guarded t ns t') :
    ∀ n ∈ ns, n.subject = .hub → n.stroke = .speaks := by
  intro n hn hx
  cases hc with
  | indexed => cases hn
  | managerCreated =>
    simp only [List.mem_cons, List.not_mem_nil, or_false] at hn
    rcases hn with rfl | rfl
    · cases hx
    · rfl
  | manager _ step =>
    have hin := step.2.inManager n hn
    cases n with
    | hub n => cases hin; rfl
    | manager | wallet | transfer => cases hx

/-! ## Rows -/

theorem Change.row (hc : Change made guarded t ms t') (ht : t.Sound) (hg : guarded) (x : Subject)
    (h : Row (strokes x ns) (t.holds x)) : Row (strokes x (ns ++ ms)) (t'.holds x) := by
  rw [strokes_append]
  cases x with
  | hub =>
    refine Row.speak h fun b hb => ?_
    obtain ⟨n, hn, hx, rfl⟩ := mem_strokes.1 hb
    exact hc.hub n hn hx
  | manager k =>
    rw [strokes_manager k ms]
    exact (hc.managerStage k).row hg (by decide)
      (fun b => by cases b <;> simp [ManagerState.verdict]) h
  | wallet p =>
    rw [strokes_wallet p ms]
    exact (hc.walletStage ht p).row trivial (by decide)
      (fun b => by cases b <;> simp [WalletState.verdict]) h
  | transfer p =>
    rw [strokes_transfer p ms]
    exact (hc.transferStage ht p).row trivial (by decide)
      (fun b => by cases b <;> simp [TransferState.verdict]) h

/-- Managers stay, also when they are deleted. -/
theorem Change.managerState?_ne_none (hc : Change made guarded t ns t') {h : ManagerHandle}
    (hn : t.managerState? h ≠ none) : t'.managerState? h ≠ none := by
  simp only [managerState?, ne_eq, Option.map_eq_none_iff] at hn ⊢
  cases hc with
  | indexed => exact hn
  | @managerCreated k m fresh =>
    have hk : k ≠ h := fun he => hn (he ▸ fresh)
    simp only [manager?, Registry.find?_findOrCreate, hk, if_false]
    exact hn
  | manager known step =>
    rw [manager?_put known step.2.handle]
    split
    · simp
    · exact hn

/-- Creations of a manager are counted by whether it is there. -/
theorem Change.once (hc : Change made guarded t ms t') {h : ManagerHandle}
    (hle : (strokes (.manager h) ns).count .opens ≤ (t.managerState? h).isSome.toNat) :
    (strokes (.manager h) (ns ++ ms)).count .opens ≤ (t'.managerState? h).isSome.toNat := by
  have stays := hc.managerState?_ne_none (h := h)
  rw [strokes_append, strokes_manager h ms, List.count_append]
  have hstage := hc.managerStage h
  generalize t.managerState? h = o at hstage stays hle
  generalize t'.managerState? h = o' at hstage stays ⊢
  generalize managerMarks h ms = as at hstage ⊢
  cases hstage with
  | still => simpa using hle
  | opened | moved | spoke | ended => simpa [Mark.stroke] using hle
  | gone => exact absurd rfl (stays (by simp))

/-! ## What holds of records and notices together -/

/-- What notices tell of the records `t`. -/
structure Bracketing (t : Tree) (ns : List Notice) : Prop where
  first : ns.head? = some (.hub .created)
  going : .hub .deleted ∉ ns
  once : ∀ h, (strokes (.manager h) ns).count .opens ≤ (t.managerState? h).isSome.toNat
  rows : ∀ x, Row (strokes x ns) (t.holds x)
  nested : Nested ns

theorem bracketing_new : Tree.empty.Bracketing [.hub .created] := by
  have alone : ∀ {before n after}, [Notice.hub .created] = before ++ n :: after →
      n = .hub .created := by
    intro before n after hns
    have hmem : n ∈ [Notice.hub .created] := by simp [hns]
    exact List.mem_singleton.1 hmem
  refine ⟨rfl, by simp, fun _ => Nat.le_refl 0, fun x => ?_, ?_⟩
  · cases x with
    | hub => exact .opens .none
    | manager | wallet | transfer => exact .none
  · refine ⟨fun before n after hns y hy => ?_, fun before n after hns hclose => ?_⟩
    · rw [alone hns] at hy
      cases hy
    · rw [alone hns] at hclose
      cases hclose

theorem Bracketing.change (h : t.Bracketing ns) (ht : t.Sound) (hg : guarded)
    (hc : Change made guarded t ms t') : t'.Bracketing (ns ++ ms) := by
  refine ⟨?_, fun hmem => ?_, fun k => hc.once (h.once k), fun x => hc.row ht hg x (h.rows x), ?_⟩
  · rw [List.head?_append, h.first, Option.some_or]
  · rcases List.mem_append.1 hmem with hmem | hmem
    · exact h.going hmem
    · cases hc.hub _ hmem rfl
  · refine h.nested.append (fun n hn y hy => ?_) hc.quiet fun n hn hclose x hx => ?_
    · have hrow := h.rows y
      rwa [hc.held ht hg n hn y hy] at hrow
    · obtain ⟨hnone, hns⟩ := hc.emptied n hn hclose x hx
      have hrow := h.rows x
      rw [hnone] at hrow
      exact ⟨hrow, hns⟩

theorem Bracketing.trail (h : t.Bracketing ns) (ht : t.Sound) (hg : guarded)
    (htrail : Trail (Change made guarded) t ms t') : t'.Bracketing (ns ++ ms) :=
  htrail.told (Q := fun ns t => t.Bracketing ns) (fun hc => hc.sound)
    (fun hc ha hq => hq.change ha hg hc) ht h

end Tree

/-! ## Runs -/

/-- Notices from the creation of a hub to its end, if it came. -/
structure Bracketed (ns : List Notice) : Prop where
  first : ns.head? = some (.hub .created)
  last : ∀ before after, ns = before ++ .hub .deleted :: after → after = []
  /-- No manager is made twice. -/
  once : ∀ h, (strokes (.manager h) ns).count .opens ≤ 1
  rows : ∀ x, ∃! o, Row (strokes x ns) o
  nested : Nested ns

theorem Tree.Bracketing.bracketed {t : Tree} {ns : List Notice} (h : t.Bracketing ns) :
    Bracketed ns := by
  refine ⟨h.first, fun before after hns => ?_, fun k => ?_, fun x => (h.rows x).existsUnique,
    h.nested⟩
  · exact absurd (by simp [hns]) h.going
  · exact Nat.le_trans (h.once k) (Bool.toNat_le _)

/-- The end of a hub is told of nothing else. -/
theorem strokes_ended {x : Subject} (hx : x ≠ .hub) (ns : List Notice) :
    strokes x (ns ++ [.hub .deleted]) = strokes x ns := by
  have hnone : strokes x [.hub .deleted] = [] :=
    strokes_eq_nil (by simpa [Notice.subject] using hx.symm)
  rw [strokes_append, hnone, List.append_nil]

/-- A hub may end when all its managers came to their end. -/
theorem Tree.Bracketing.nested_ended {t : Tree} {ns : List Notice} (h : t.Bracketing ns)
    (gone : ∀ {k m}, t.manager? k = some m → m.state = .deleted) :
    Nested (ns ++ [.hub .deleted]) := by
  have alone : ∀ n ∈ [Notice.hub .deleted], n = .hub .deleted := fun n => List.mem_singleton.1
  refine h.nested.append (fun n hn y hy => ?_) (fun n hn k _ hy => ?_) fun n hn _ x hx => ?_
  · rw [alone n hn] at hy
    cases hy
  · rw [alone n hn] at hy
    cases hy
  · rw [alone n hn] at hx
    obtain ⟨k, rfl⟩ := Subject.parent_eq_hub.1 hx
    have hdead : t.holds (.manager k) = false := by
      cases hm : t.manager? k with
      | none => simp [holds, managerState?, hm, alive]
      | some m => simp [holds, managerState?, hm, gone hm, alive]
    exact ⟨hdead ▸ h.rows _, by simp [Notice.subject]⟩

theorem Tree.Bracketing.ended {t : Tree} {ns : List Notice} (h : t.Bracketing ns)
    (gone : ∀ {k m}, t.manager? k = some m → m.state = .deleted) :
    Bracketed (ns ++ [.hub .deleted]) := by
  refine ⟨?_, fun before after hsplit => ?_, fun k => ?_, fun x => ?_, h.nested_ended gone⟩
  · rw [List.head?_append, h.first, Option.some_or]
  · rcases split_of_append hsplit with ⟨rest, hns⟩ | ⟨mid, -, hmid⟩
    · exact absurd (by simp [hns]) h.going
    · cases mid with
      | nil => simpa using hmid.symm
      | cons a mid => simp at hmid
  · rw [strokes_ended (by simp)]
    exact Nat.le_trans (h.once k) (Bool.toNat_le _)
  · by_cases hx : x = .hub
    · subst hx
      have hrow : Row (strokes .hub (ns ++ [.hub .deleted])) false := by
        rw [strokes_append]
        exact (h.rows .hub).closes
      exact hrow.existsUnique
    · rw [strokes_ended hx]
      exact (h.rows x).existsUnique

namespace Session

/-- **Brackets.** In every run, the first notice is the creation of the hub and nothing follows its
end. What is told of a manager, a wallet or a transfer forms disjoint brackets from a creation to an
end, one at most for a manager, and of the others only the last may be open. Each notice stands in
the open bracket of what holds its subject, and a bracket closes after all that it holds. -/
theorem notices_bracketed {s : Session} (hs : s.Reachable) (fits : s.hub.Fits) :
    Bracketed s.notices := by
  -- while the hub goes on, the notices also fit its records
  suffices hboth : Bracketed s.notices ∧ (s.life = .running → s.hub.tree.Bracketing s.notices) from
    hboth.1
  refine Reachable.invariant_of_fits (P := fun s =>
      Bracketed s.notices ∧ (s.life = .running → s.hub.tree.Bracketing s.notices))
    (fun strict hasClient utxo account => ?_) (fun s c hs running fresh houtcome hp => ?_)
    (fun s h htree hp => htree ▸ hp) hs fits
  · have hnew := Tree.bracketing_new
    exact ⟨hnew.bracketed, fun _ => hnew⟩
  · have hnow := hp.2 running
    rw [take, notices_after]
    cases houtcome with
    | onward life told =>
      have hnext := hnow.trail hs.sound fresh told
      exact ⟨hnext.bracketed, fun _ => hnext⟩
    | ending life told gone notices =>
      rw [notices, ← List.append_assoc]
      exact ⟨(hnow.trail hs.sound fresh told).ended gone, fun hrun => by
        rw [after, life] at hrun; cases hrun⟩
    | halting life notices =>
      rw [notices, List.append_nil]
      exact ⟨hp.1, fun hrun => by rw [after, life] at hrun; cases hrun⟩

/-- The brackets of a wallet that was deleted and came again. -/
theorem notices_bracketed_tour :
    Bracketed tour.notices ∧
      strokes (.wallet ⟨⟨.account, 0x2000⟩, ⟨.account, 0x2001⟩⟩) tour.notices =
        [.opens, .speaks, .speaks, .speaks, .speaks, .speaks, .closes, .opens, .speaks, .speaks] :=
  ⟨notices_bracketed reachable_tour fits_tour, by decide +kernel⟩

end Session
end WalletHub
