import WalletHub.Proofs.Change.Stages
import WalletHub.Proofs.Run

/-!
# The course of states

Records go through the states of their state machines in every run, whatever the order of callbacks
and requests. Each time that a record comes into being it begins as created; each change that is
told sets out from the state before; the last one leads to the state that the record has now, or to
its end. What a single step may be is said for each kind of record by `TransferState.Step`,
`WalletState.Step` and `ManagerState.Step`.

* `courses_legal`: the changes told of transfers, wallets and managers.
-/
namespace WalletHub

/-! ## Steps -/

/-- A step of a transfer goes up, or from one block to another. -/
structure TransferState.Step (old new : TransferState) : Prop where
  differs : old ≠ new
  onward : old.rank < new.rank ∨ ∃ c c', old = .included c ∧ new = .included c' ∧ c ≠ c'
  /-- Nothing but the end comes after a failure. -/
  failed : ∀ r, old = .failed r → new = .deleted
  /-- What is in a block does not fail. -/
  included : ∀ c r, old = .included c → new ≠ .failed r
  last : old ≠ .deleted

/-- The one step of a wallet. -/
structure WalletState.Step (old new : WalletState) : Prop where
  first : old = .created
  last : new = .deleted

structure ManagerState.Step (old new : ManagerState) : Prop where
  differs : old ≠ new
  first : new ≠ .created
  last : old ≠ .deleted

theorem TransferState.step_of_allowed {old new : TransferState} (h : old.verdict new = .allowed) :
    old.Step new := by
  have differs : old ≠ new := by
    rintro rfl
    simp [verdict] at h
  refine ⟨differs, ?_, ?_, ?_, ?_⟩
  · cases old <;> cases new <;> simp_all [verdict, rank]
  · rintro r rfl
    cases new <;> simp_all [verdict]
  · rintro c r rfl rfl
    simp [verdict] at h
  · rintro rfl
    simp [verdict, differs] at h

theorem WalletState.step_of_allowed {old new : WalletState} (h : old.verdict new = .allowed) :
    old.Step new := by
  cases old <;> cases new <;> first | exact ⟨rfl, rfl⟩ | cases h

theorem ManagerState.step_of_allowed {old new : ManagerState} (h : old.verdict new = .allowed) :
    old.Step new := by
  have differs : old ≠ new := by
    rintro rfl
    simp [verdict] at h
  refine ⟨differs, ?_, ?_⟩
  · rintro rfl
    cases old <;> simp_all [verdict]
  · rintro rfl
    simp [verdict, differs] at h

/-! ## Courses -/

/-- The changes that were told of the records `t`, and of those that were there before them, follow
the state machines. -/
structure Tree.Courses (t : Tree) (ended : Prop) (ns : List Notice) : Prop where
  transfers : ∀ p, Lived .created .deleted TransferState.Step ended (transferMarks p ns)
    (t.transferState? p)
  wallets : ∀ p, Lived .created .deleted WalletState.Step ended (walletMarks p ns)
    (t.walletState? p)
  managers : ∀ h, Lived .created .deleted ManagerState.Step ended (managerMarks h ns)
    (t.managerState? h)

namespace Tree

variable {ended : Prop} {ns ms : List Notice}

theorem Courses.mono {ended' : Prop} {t : Tree} (h : t.Courses ended ns) (he : ended' → ended) :
    t.Courses ended' ns :=
  ⟨fun p => (h.transfers p).mono he, fun p => (h.wallets p).mono he,
    fun k => (h.managers k).mono he⟩

theorem Courses.change {made : ManagerHandle → Prop} {guarded : Prop} {t t' : Tree}
    (h : t.Courses ended ns) (ht : t.Sound) (hc : Change made guarded t ms t') :
    t'.Courses ended (ns ++ ms) := by
  refine ⟨fun p => ?_, fun p => ?_, fun k => ?_⟩
  · rw [transferMarks, List.filterMap_append]
    exact (hc.transferStage ht p).lived (fun _ _ => TransferState.step_of_allowed) (h.transfers p)
  · rw [walletMarks, List.filterMap_append]
    exact (hc.walletStage ht p).lived (fun _ _ => WalletState.step_of_allowed) (h.wallets p)
  · rw [managerMarks, List.filterMap_append]
    exact (hc.managerStage k).lived (fun _ _ => ManagerState.step_of_allowed) (h.managers k)

theorem Courses.trail {made : ManagerHandle → Prop} {guarded : Prop} {t t' : Tree}
    (h : t.Courses ended ns) (ht : t.Sound) (htrail : Trail (Change made guarded) t ms t') :
    t'.Courses ended (ns ++ ms) :=
  htrail.told (Q := fun ns t => t.Courses ended ns) (fun hc => hc.sound)
    (fun hc ha hq => hq.change ha hc) ht h

/-- When a hub lets go of its records it says so, and nothing of the records. -/
theorem Courses.dropped {t : Tree} (h : t.Courses ended ns) :
    Tree.empty.Courses False (ns ++ [.hub .deleted]) := by
  have lost : ∀ {σ : Type} {born dead : σ} {S : σ → σ → Prop} {xs : List (Mark σ)} {o : Option σ},
      Lived born dead S ended xs o → Lived born dead S False (xs ++ []) none := by
    intro σ born dead S xs o hl
    have hl : Lived born dead S False xs o := hl.mono False.elim
    rw [List.append_nil]
    cases o with
    | none => exact hl
    | some a => exact hl.gone False.elim
  refine ⟨fun p => ?_, fun p => ?_, fun k => ?_⟩
  · rw [transferMarks, List.filterMap_append]
    exact lost (h.transfers p)
  · rw [walletMarks, List.filterMap_append]
    exact lost (h.wallets p)
  · rw [managerMarks, List.filterMap_append]
    exact lost (h.managers k)

/-- The height of a manager has no part in any course. -/
theorem Courses.raised {t : Tree} (h : t.Courses ended ns) {m : Manager} (height : UInt64)
    (known : t.manager? m.handle = some m) :
    (t.put { m with height := height }).Courses ended ns := by
  obtain ⟨htransfers, hwallets, hmanagers⟩ := states_raised known height
  exact ⟨fun p => htransfers p ▸ h.transfers p, fun p => hwallets p ▸ h.wallets p,
    fun k => hmanagers k ▸ h.managers k⟩

end Tree

namespace Session

/-- The changes told so far follow the state machines. -/
theorem Reachable.courses {s : Session} (hs : s.Reachable) :
    s.hub.tree.Courses (s.life ≠ .stopped) s.notices := by
  refine Reachable.invariant (P := fun s => s.hub.tree.Courses (s.life ≠ .stopped) s.notices)
    (fun _ _ _ _ => ?_) (fun s c hs running houtcome hp => ?_) (fun s h htree hp => ?_) hs
  · have none : ∀ {σ : Type} {born dead : σ} {S : σ → σ → Prop} {ended : Prop},
        Lived born dead S ended [] none := fun _ hc => by cases hc
    exact ⟨fun _ => none, fun _ => none, fun _ => none⟩
  · have hp : s.hub.tree.Courses True s.notices := hp.mono fun _ => by simp [running]
    rw [take, notices_after]
    cases houtcome with
    | onward life told => exact (hp.trail hs.sound told).mono fun _ => trivial
    | ending life told _ notices tree =>
      simp only [after, life, notices, tree, ne_eq, not_true_eq_false]
      rw [← List.append_assoc]
      exact (hp.trail hs.sound told).dropped
    | halting life notices tree =>
      rw [notices, List.append_nil]
      suffices hall : (s.hub.process c).hub.tree.Courses True s.notices from
        hall.mono fun _ => trivial
      rcases tree with tree | ⟨m, height, known, tree⟩
      · exact (congrArg (·.Courses True s.notices) tree).mpr hp
      · exact (congrArg (·.Courses True s.notices) tree).mpr (hp.raised height known)
  · exact htree ▸ hp

/-- **Courses.** In every run, the changes told of a transfer, a wallet or a manager make a path of
its state machine each time that it comes into being: from the state created, each change from where
the one before it led, to the state that the record has now. Records that are no longer there were
led to their end, short of a hub that was shut down. -/
theorem courses_legal {s : Session} (hs : s.Reachable) :
    s.hub.tree.Courses (s.life ≠ .stopped) s.notices := hs.courses

/-- The two lives of a transfer whose wallet was deleted and came again. -/
theorem courses_legal_tour :
    tour.hub.tree.Courses (tour.life ≠ .stopped) tour.notices ∧
      (courses (transferMarks ⟨⟨.account, 0x2000⟩, ⟨.account, 0x2001⟩, ⟨.account, 0x6000⟩⟩
        tour.notices)).map (·.map fun x => (x.1.name, x.2.name)) =
          [[("created", "signed")],
            [("created", "included"), ("included", "included"), ("included", "deleted")]] :=
  ⟨courses_legal reachable_tour, by decide +kernel⟩

end Session
end WalletHub
