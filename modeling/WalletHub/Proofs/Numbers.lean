import WalletHub.Proofs.Engines

/-!
# Engines do not hand out a number twice

An engine takes its numbers from one counter of 64 bits, two for a manager with its wallet and one
for everything else, and logs every command. So its counter is at most twice the length of its log
ahead of where it began, and as long as the log fits in any memory (`Hub.Fits`) the counter does not
come round: the number of every manager is below it (`Hub.Ahead`), and the next one is new.

* `grew_process`: what a command does to the engines.
* `Ahead.process`, `Ahead.fresh`: numbers stay ahead, and the next one is new.
-/
namespace WalletHub

/-! ## Engines -/

/-- `e'` comes of `e` by logging commands and handing out at most two numbers for each. -/
def Engine.Grew (e e' : Engine) : Prop :=
  ∃ k n : Nat, e'.issued.length = e.issued.length + k ∧ n ≤ 2 * k ∧
    e'.nextHandle = e.nextHandle + UInt64.ofNat n

namespace Engine

theorem Grew.of_same {e e' : Engine} (hi : e'.issued = e.issued)
    (hn : e'.nextHandle = e.nextHandle) : e.Grew e' :=
  ⟨0, 0, by simp [hi], by omega, by simp [hn]⟩

theorem Grew.refl (e : Engine) : e.Grew e := .of_same rfl rfl

theorem Grew.trans {a b c : Engine} (hab : a.Grew b) (hbc : b.Grew c) : a.Grew c := by
  obtain ⟨k, n, hi, hn, he⟩ := hab
  obtain ⟨k', n', hi', hn', he'⟩ := hbc
  refine ⟨k + k', n + n', by omega, by omega, ?_⟩
  rw [he', he, UInt64.ofNat_add, UInt64.add_assoc]

theorem grew_take (e : Engine) (c : EngineCommand) : e.Grew (e.take c).1 := by
  refine ⟨1, 0, ?_, by omega, ?_⟩
  · unfold take
    split <;> simp
  · rw [Hub.nextHandle_take]
    simp

/-- A command is logged, and it hands out what it hands out. -/
theorem grew_command {α : Type} (e : Engine) (c : EngineCommand)
    {act : Engine → Engine × List EngineCallback × α} (n : Nat) (hn : n ≤ 2)
    (log : ∀ e, (act e).1.issued = e.issued)
    (next : ∀ e, (act e).1.nextHandle = e.nextHandle + UInt64.ofNat n) :
    e.Grew (e.command c act).engine := by
  have htake := grew_take e c
  unfold command take at *
  split
  · rename_i e' err he
    rw [he] at htake
    exact htake
  · rename_i e' he
    refine ⟨1, n, ?_, by omega, ?_⟩
    · rw [log]
      cases hf : e.failNext <;> simp only [hf] at he <;> cases he
      simp
    · rw [next]
      cases hf : e.failNext <;> simp only [hf] at he <;> cases he
      rfl

/-- Whatever an engine does for the hub, it grows. -/
theorem Move.grew {answering : Prop} {e e' : Engine} (move : Move answering e e') : e.Grew e' := by
  cases move with
  | createManager => exact grew_command e _ 2 (by omega) (fun _ => rfl) fun _ => rfl
  | createWallet =>
    unfold Engine.createWallet
    cases e.backend with
    | utxo => exact .refl e
    | account => exact grew_command e _ 1 (by omega) (fun _ => rfl) fun _ => rfl
  | createTransfer => exact grew_command e _ 1 (by omega) (fun _ => rfl) fun _ => rfl
  | plain => exact grew_command e _ 0 (by omega) (fun _ => rfl) fun e => by simp
  | release => exact grew_take e _
  | announce =>
    unfold Engine.announce
    split
    · exact .refl e
    · exact .of_same rfl rfl

theorem grew_of_moves {answering : Prop} {e e' : Engine}
    (moves : Relation.ReflTransGen (Move answering) e e') : e.Grew e' := by
  induction moves with
  | refl => exact .refl e
  | tail _ move ih => exact ih.trans move.grew

end Engine

/-! ## Hubs -/

namespace Hub

/-- The engines of `g` come of those of `h`. -/
def Grew (h g : Hub) : Prop :=
  ∀ b, (h.engine? b = none ∧ g.engine? b = none) ∨
    ∃ e e', h.engine? b = some e ∧ g.engine? b = some e' ∧ e.Grew e'

variable {h : Hub}

theorem Grew.refl (h : Hub) : h.Grew h := Engines.refl Engine.Grew.refl h

theorem grew_withEngine {b : Backend} {e e' : Engine} (he : h.engine? b = some e)
    (hg : e.Grew e') : h.Grew (h.withEngine b e') := engines_withEngine Engine.Grew.refl he hg

/-- **Engines.** A command makes the logs of the engines longer, and hands out at most two numbers
for each line. -/
theorem grew_process (h : Hub) (c : Command) : h.Grew (h.process c).hub :=
  (moves_process h c).engines.mono Engine.grew_of_moves

/-! ## Numbers -/

/-- The log of every engine fits in memory, which has less than `2 ^ 63` octets, at two octets or
more for a command. -/
def Fits (h : Hub) : Prop := ∀ b e, h.engine? b = some e → e.issued.length < Nat.pow 2 62

/-- Whether logs fit can be looked up. -/
theorem fits_of_short
    (short : ∀ b, ((h.engine? b).all fun e => e.issued.length < Nat.pow 2 62) = true) :
    h.Fits := by
  intro b e he
  simpa [he] using short b

/-- Engines count on from where they began, and are ahead of all managers they made. -/
structure Ahead (h : Hub) : Prop where
  bound : ∀ {b e}, h.engine? b = some e → e.nextHandle.toNat ≤ 0x2000 + 2 * e.issued.length
  used : ∀ {k e}, h.engine? k.backend = some e → h.tree.manager? k ≠ none →
    k.raw.toNat < e.nextHandle.toNat

theorem Grew.fits {g : Hub} (hg : h.Grew g) (fits : g.Fits) : h.Fits := by
  intro b e he
  rcases hg b with ⟨hn, -⟩ | ⟨e₁, e', he₁, he', k, n, hlog, -, -⟩
  · rw [hn] at he; cases he
  · rw [he] at he₁
    cases he₁
    have := fits b e' he'
    omega

/-- A counter that is behind its log, and whose log fits, does not come round. -/
theorem toNat_grown {e e' : Engine} {n : Nat}
    (hb : e.nextHandle.toNat ≤ 0x2000 + 2 * e.issued.length)
    (hlog : 2 * e.issued.length + n ≤ Nat.pow 2 63)
    (hnext : e'.nextHandle = e.nextHandle + UInt64.ofNat n) :
    e'.nextHandle.toNat = e.nextHandle.toNat + n := by
  have hpow : Nat.pow 2 63 = 9223372036854775808 := rfl
  rw [hnext, UInt64.toNat_add, UInt64.toNat_ofNat']
  omega

/-- New managers are `made`. -/
theorem manager?_trail {made : ManagerHandle → Prop} {guarded : Prop} {t t' : Tree}
    {ns : List Notice} (ht : Trail (Tree.Change made guarded) t ns t') {k : ManagerHandle}
    (hk : t'.manager? k ≠ none) : t.manager? k ≠ none ∨ made k := by
  induction ht with
  | still => exact .inl hk
  | step hc _ ih =>
    rcases ih hk with hk | hm
    · cases hc with
      | indexed => exact .inl hk
      | @manager m m' _ known step =>
        exact .inl (Tree.ne_none_of_put known step.2.handle hk)
      | @managerCreated j m fresh new =>
        simp only [Tree.manager?, Registry.find?_findOrCreate] at hk
        split at hk
        · rename_i he
          exact .inr (he ▸ new)
        · exact .inl hk
    · exact .inr hm

theorem Outcome.manager? {t : Turn} (ho : h.Outcome t) {k : ManagerHandle}
    (hk : t.hub.tree.manager? k ≠ none) : h.tree.manager? k ≠ none ∨ h.Makes t.hub k := by
  cases ho with
  | onward _ told => exact manager?_trail told hk
  | ending _ _ _ _ htree => rw [htree] at hk; exact absurd rfl hk
  | halting _ _ htree =>
    rcases htree with htree | ⟨m, height, known, htree⟩
    · exact .inl (htree ▸ hk)
    · rw [htree] at hk
      exact .inl (Tree.ne_none_of_put known (by rfl) hk)

/-- Engines that went on counting are still ahead, also of the managers they made meanwhile. -/
theorem Ahead.grow {g : Hub} (ha : h.Ahead) (hg : h.Grew g) (fits : g.Fits)
    (managers : ∀ k, g.tree.manager? k ≠ none → h.tree.manager? k ≠ none ∨ h.Makes g k) :
    g.Ahead := by
  have hpow : Nat.pow 2 62 * 2 = Nat.pow 2 63 := rfl
  -- each engine comes of one that was ahead, and its counter did not come round
  have grown : ∀ {b e'}, g.engine? b = some e' → ∃ e, h.engine? b = some e ∧
      ∃ k n : Nat, e'.issued.length = e.issued.length + k ∧ n ≤ 2 * k ∧
        e'.nextHandle = e.nextHandle + UInt64.ofNat n ∧
        e'.nextHandle.toNat = e.nextHandle.toNat + n := by
    intro b e' he'
    rcases hg b with ⟨-, hn⟩ | ⟨e, e₁, he, he₁, k, n, hlog, hn, hnext⟩
    · rw [hn] at he'; cases he'
    · rw [he₁] at he'
      cases he'
      have hfit := fits b e' he₁
      exact ⟨e, he, k, n, hlog, hn, hnext, toNat_grown (ha.bound he) (by omega) hnext⟩
  refine ⟨fun {b e'} he' => ?_, fun {k e'} he' hk => ?_⟩
  · obtain ⟨e, he, k, n, hlog, hn, -, hnat⟩ := grown he'
    have := ha.bound he
    omega
  · obtain ⟨e, he, j, n, hlog, hn, hnext, hnat⟩ := grown he'
    rcases managers k hk with hold | ⟨e₁, e₂, he₁, he₂, hraw, htwo⟩
    · have := ha.used he hold
      omega
    · rw [he] at he₁
      cases he₁
      rw [he'] at he₂
      cases he₂
      have hfit := fits _ _ he'
      have h2 := toNat_grown (n := 2) (ha.bound he) (by omega) htwo
      rw [hraw]
      omega

theorem Ahead.process (ha : h.Ahead) (hs : h.tree.Sound) (c : Command)
    (fits : (h.process c).hub.Fits) : (h.process c).hub.Ahead :=
  ha.grow (grew_process h c) fits fun _ => (outcome_process hs c).manager?

/-- The next number of an engine is new. -/
theorem Ahead.fresh (ha : h.Ahead) : h.Fresh := by
  intro b e he
  by_contra hk
  exact Nat.lt_irrefl _ (ha.used (k := ⟨b, e.nextHandle⟩) he hk)

end Hub
end WalletHub
