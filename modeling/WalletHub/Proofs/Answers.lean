import WalletHub.Proofs.Desk

/-!
# Every query is answered once

A request for data that an engine raises is answered at once, with a failure, if its manager is
unknown or there is no service to ask. Otherwise the service is asked, once, and what it returns is
the answer. Until then the query is under way, with the service or in the queue. An engine for
outputs has no method for five kinds of requests: those are never answered.

* `Asked.fate`: what the hub does with a request.
* `Desk.turn_command`, `Desk.turn_asked`, `Desk.turn_answer`: what a turn does to the ledger.
* `Desk.answered_once`: the account of all requests.
-/
namespace WalletHub

/-! ## Requests -/

namespace Asked

/-- The engine of the backend is there. -/
def Attached (a : Asked) : Prop := (a.hub.engine? a.backend).isSome

/-- The manager is known, and there is a service to ask. -/
def Served (a : Asked) : Prop :=
  (a.hub.tree.manager? ⟨a.backend, a.manager⟩).isSome ∧ a.hub.hasClient

/-- The engine has the method for the answer. -/
def Supported (a : Asked) : Prop := a.backend.Supports a.request

instance (a : Asked) : Decidable a.Supported := inferInstanceAs (Decidable (_ ∨ _))

/-- The request as a command. -/
def command (a : Asked) : Command := .callback a.backend (.queryRequested a.manager a.id a.request)

/-- The query for the service. -/
def inquiry (a : Asked) (network : Network) : Inquiry :=
  ⟨a.backend, a.manager, a.id, a.request, network⟩

/-- What the engine hears of a result. -/
def answer (a : Asked) (r : QueryResult) : Announced := ⟨a.manager, a.id, .ofResult a.request r⟩

/-- What becomes of a request: it is lost because there is no engine, it is sent to the service, or
it is answered with a failure. -/
inductive Fate (a : Asked) (t : Turn) : Prop
  | lost (detached : ¬a.Attached) (queries : t.queries = [])
      (same : ∀ b, t.hub.announced b = a.hub.announced b)
  | sent (attached : a.Attached) (served : a.Served) (network : Network)
      (queries : t.queries = [a.inquiry network])
      (same : ∀ b, t.hub.announced b = a.hub.announced b)
  | refused (attached : a.Attached) (unserved : ¬a.Served) (queries : t.queries = [])
      (e : QueryError)
      (told : ∀ b, t.hub.announced b = a.hub.announced b ++
        if b = a.backend ∧ a.Supported then [a.answer (.error e)] else [])

/-- The turn of a request raises nothing, and the hub goes on. -/
theorem fate (a : Asked) (hh : a.hub.Homed) :
    a.Fate (a.hub.process a.command) ∧ (a.hub.process a.command).raised = [] ∧
      (a.hub.process a.command).life = .running := by
  let counted := (a.hub.count fun c => { c with commands := c.commands + 1 }).count
    fun c => { c with callbacks := c.callbacks + 1 }
  have hprocess : a.hub.process a.command =
      Hub.conclude (counted.onQuery a.backend a.manager a.id a.request) none := by
    have hresult := (Hub.silent_onQuery counted a.backend a.manager a.id a.request).2.2
    change Hub.concludeCallback a.hub (counted.onQuery a.backend a.manager a.id a.request) = _
    unfold Hub.concludeCallback
    rw [hresult]
  rw [hprocess]
  unfold Hub.onQuery
  cases he : counted.engine? a.backend with
  | none =>
    have detached : ¬a.Attached := by
      have hnone : a.hub.engine? a.backend = none := he
      simp [Attached, hnone]
    exact ⟨.lost detached rfl fun _ => rfl, rfl, rfl⟩
  | some e =>
    have attached : a.Attached := by
      have hsome : a.hub.engine? a.backend = some e := he
      simp [Attached, hsome]
    have told : ∀ (f : Counters → Counters) (r : QueryError) (b : Backend),
        ((counted.count f).announceResult a.backend e a.manager a.id a.request (.error r)).announced
            b = a.hub.announced b ++
          if b = a.backend ∧ a.Supported then [a.answer (.error r)] else [] :=
      fun f r b => Hub.announced_announceResult (h := counted.count f) hh he _ _ _ _ b
    cases hm : counted.tree.manager? ⟨a.backend, a.manager⟩ with
    | none =>
      have unserved : ¬a.Served := by
        have hnone : a.hub.tree.manager? ⟨a.backend, a.manager⟩ = none := hm
        simp [Served, hnone]
      exact ⟨.refused attached unserved rfl _ (told _ _), rfl, rfl⟩
    | some m =>
      have hsome : a.hub.tree.manager? ⟨a.backend, a.manager⟩ = some m := hm
      by_cases hc : counted.hasClient
      · have served : a.Served := ⟨by simp [hsome], hc⟩
        simp only [hc, if_true]
        exact ⟨.sent attached served m.network rfl fun _ => rfl, rfl, rfl⟩
      · have unserved : ¬a.Served := fun hs => hc hs.2
        simp only [hc, if_false, Bool.false_eq_true]
        exact ⟨.refused attached unserved rfl _ (told (fun c => c) _), rfl, rfl⟩

end Asked

/-! ## News -/

namespace Hub

variable {h g : Hub}

theorem news_of_same (same : ∀ b, g.announced b = h.announced b) (origin : Option Nat) :
    h.news g origin = [] := by
  simp [news, same]

theorem news_of_one {b : Backend} {p : Prop} [Decidable p] {x : Announced}
    (told : ∀ b', g.announced b' = h.announced b' ++ if b' = b ∧ p then [x] else [])
    (origin : Option Nat) : h.news g origin = if p then [⟨b, origin, x⟩] else [] := by
  by_cases hp : p
  · cases b <;> simp [news, told, hp]
  · simp [news, told, hp]

/-- What one engine heard is no news of another. -/
theorem announced_heard (b b' : Backend) (origin : Option Nat) (xs : List Announced) :
    ((xs.map (Heard.mk b' origin)).filter (·.backend = b)).map (·.announced) =
      if b' = b then xs else [] := by
  by_cases hb : b' = b
  · simp [List.filter_map, Function.comp_def, hb]
  · simp [List.filter_map, Function.comp_def, hb]

/-- The news of one backend are what its log gained. -/
theorem announced_news (longer : ∀ b, h.announced b <+: g.announced b) (origin : Option Nat)
    (b : Backend) :
    g.announced b = h.announced b ++
      ((h.news g origin).filter (·.backend = b)).map (·.announced) := by
  obtain ⟨new, hnew⟩ := longer b
  have hdrop : ((h.news g origin).filter (·.backend = b)).map (·.announced) =
      (g.announced b).drop (h.announced b).length := by
    simp only [news, List.flatMap_cons, List.flatMap_nil, List.append_nil, List.filter_append,
      List.map_append, announced_heard]
    cases b <;> simp
  rw [hdrop, ← hnew, List.drop_left]

end Hub

namespace Desk

/-! ## Turns -/

/-- A turn of a command that is neither a query nor the answer to one leaves the ledger. -/
theorem turn_command (d : Desk) {c : Command} (plain : c.isAnswering = false) (rest : List Entry) :
    d.turn (.command c) rest = { d with
      session := d.session.take c
      queue := (d.session.hub.process c).raised.map (fun c => .command (.callback c.1 c.2)) ++
        rest } := by
  have hquiet : ¬(c.isAnswering = true) := by simp [plain]
  have hqueries : (d.session.hub.process c).queries = [] :=
    (Hub.moves_process d.session.hub c).silent.resolve_left hquiet
  have hnews := Hub.news_of_same
    (fun b => (Hub.keeps_process d.session.hub c).announced_eq hquiet b) (d.origin (.command c))
  have hasks : d.asks (.command c) = [] := by
    cases c with
    | callback b cb =>
      cases cb with
      | queryRequested k i q => cases plain
      | manager | wallet | transfer => rfl
    | request | answered | register | remove | flush | shutdown => rfl
  simp only [turn, Entry.toCommand, hqueries, hnews, hasks, List.map_nil, List.append_nil]
  rfl

/-- A request is entered under the next number; nothing comes in between. -/
theorem turn_asked (d : Desk) {a : Asked} (here : a.hub = d.session.hub) (hh : a.hub.Homed)
    (rest : List Entry) :
    d.turn (.command a.command) rest = { d with
      session := d.session.take a.command
      queue := rest
      running := d.running ++ (a.hub.process a.command).queries.map (d.asked.length, ·)
      asked := d.asked ++ [a]
      heard := d.heard ++ a.hub.news (a.hub.process a.command).hub (some d.asked.length) } := by
  have hraised := (a.fate hh).2.1
  obtain ⟨hub, b, k, i, q⟩ := a
  subst here
  simp only [turn, Entry.toCommand, hraised, List.map_nil, List.nil_append]
  rfl

section

variable {a : Asked}

/-- The engine hears the answer to a request, if it has the method. -/
theorem told_answer (d : Desk) (network : Network) (hh : d.session.hub.Homed)
    (attached : (d.session.hub.engine? a.backend).isSome) (r : QueryResult) (b : Backend) :
    (d.session.hub.process (.answered (a.inquiry network) r)).hub.announced b =
      d.session.hub.announced b ++ if b = a.backend ∧ a.Supported then [a.answer r] else [] := by
  obtain ⟨e, he⟩ := Option.isSome_iff_exists.1 attached
  let counted := d.session.hub.count fun c => { c with commands := c.commands + 1 }
  have hhub : (d.session.hub.process (.answered (a.inquiry network) r)).hub =
      counted.announceResult a.backend e a.manager a.id a.request r := by
    change counted.onAnswered (a.inquiry network) r = _
    unfold Hub.onAnswered
    rw [show counted.engine? (a.inquiry network).backend = some e from he]
    rfl
  rw [hhub]
  exact Hub.announced_announceResult (h := counted) hh he _ _ _ _ b

theorem turn_answer (d : Desk) (network : Network) (hh : d.session.hub.Homed)
    (attached : (d.session.hub.engine? a.backend).isSome) (n : Nat) (r : QueryResult)
    (rest : List Entry) :
    d.turn (.answer n (a.inquiry network) r) rest = { d with
      session := d.session.take (.answered (a.inquiry network) r)
      queue := rest
      heard := d.heard ++ if a.Supported then [⟨a.backend, some n, a.answer r⟩] else [] } := by
  have hnews := Hub.news_of_one (d.told_answer network hh attached r) (some n)
  have hqueries : (d.session.hub.process (.answered (a.inquiry network) r)).queries = [] := rfl
  have hraised : (d.session.hub.process (.answered (a.inquiry network) r)).raised = [] := rfl
  simp only [turn, Entry.toCommand, origin, hnews, hqueries, hraised, asks, List.map_nil,
    List.append_nil, List.nil_append]
  rfl

end

/-! ## The ledger -/

/-- The number of times that a request was answered. -/
def answers (d : Desk) (n : Nat) : Nat := d.heard.countP (·.origin = some n)

/-- The number of queries of a request that the service is at work on. -/
def executing (d : Desk) (n : Nat) : Nat := d.running.countP (·.1 = n)

/-- The number of answers to a request that wait in the queue. -/
def completing (d : Desk) (n : Nat) : Nat := d.queue.countP (·.answers n)

/-- The number of times that the service was asked for a request. -/
def executions (d : Desk) (n : Nat) : Nat := d.executing n + d.returned.countP (·.1 = n)

/-- The query is the one that was sent for a request. -/
def Sent (d : Desk) (n : Nat) (q : Inquiry) : Prop :=
  ∃ a network, d.asked[n]? = some a ∧ a.Attached ∧ a.Served ∧ q = a.inquiry network

/-- What an engine heard is the answer to a request: what the service returned, or a failure if it
was not asked. -/
def Justified (d : Desk) (x : Heard) : Prop :=
  ∃ n a r, x.origin = some n ∧ d.asked[n]? = some a ∧ a.Supported ∧ x.backend = a.backend ∧
    x.announced = a.answer r ∧
      (a.Served ∧ (n, r) ∈ d.returned ∨ ¬a.Served ∧ ∃ e, r = .error e)

/-- The account of one request. -/
structure Account (d : Desk) (n : Nat) (a : Asked) : Prop where
  served : a.Served → d.executions n = 1
  unserved : ¬a.Served → d.executions n = 0
  once : a.Supported → d.answers n + d.executing n + d.completing n = 1

/-- An account whose sums stay the same stays in order. -/
theorem Account.of_same {d d' : Desk} {n : Nat} {a : Asked} (h : d.Account n a)
    (executions : d'.executions n = d.executions n)
    (once : a.Supported → d'.answers n + d'.executing n + d'.completing n =
      d.answers n + d.executing n + d.completing n) : d'.Account n a :=
  ⟨fun hs => executions.trans (h.served hs), fun hs => executions.trans (h.unserved hs),
    fun hs => (once hs).trans (h.once hs)⟩

/-- The ledger is in order. -/
structure Ledger (d : Desk) : Prop where
  homed : d.session.hub.Homed
  log : ∀ b, d.session.hub.announced b = (d.heard.filter (·.backend = b)).map (·.announced)
  attached : ∀ a ∈ d.asked, a.Attached → (d.session.hub.engine? a.backend).isSome
  outside : ∀ c, .command c ∈ d.queue → ∀ q r, c ≠ .answered q r
  running : ∀ n q, (n, q) ∈ d.running → d.Sent n q
  completing : ∀ n q r, .answer n q r ∈ d.queue → d.Sent n q ∧ (n, r) ∈ d.returned
  returned : ∀ n r, (n, r) ∈ d.returned → ∃ q v, d.Sent n q ∧ r = q.request.result v
  heard : ∀ x ∈ d.heard, d.Justified x
  accounts : ∀ n a, d.asked[n]? = some a → a.Attached → d.Account n a

section

variable {d : Desk}

theorem getElem?_entered {α : Type} {xs : List α} {n : Nat} {a : α} (ys : List α)
    (h : xs[n]? = some a) : (xs ++ ys)[n]? = some a := by
  obtain ⟨hn, -⟩ := List.getElem?_eq_some_iff.1 h
  rw [List.getElem?_append_left hn, h]

theorem Sent.lt {n : Nat} {q : Inquiry} (h : d.Sent n q) : n < d.asked.length := by
  obtain ⟨a, -, ha, -⟩ := h
  exact (List.getElem?_eq_some_iff.1 ha).1

/-- Requests with higher numbers are not there yet. -/
theorem Ledger.fresh (hd : d.Ledger) :
    d.answers d.asked.length = 0 ∧ d.executing d.asked.length = 0 ∧
      d.completing d.asked.length = 0 ∧ d.executions d.asked.length = 0 := by
  have hexecuting : d.executing d.asked.length = 0 := by
    refine List.countP_eq_zero.2 fun x hx => ?_
    have hlt := (hd.running x.1 x.2 hx).lt
    simp only [decide_eq_true_eq]
    omega
  refine ⟨List.countP_eq_zero.2 fun x hx => ?_, hexecuting,
    List.countP_eq_zero.2 fun x hx => ?_, ?_⟩
  · obtain ⟨n, a, -, horigin, ha, -⟩ := hd.heard x hx
    have hlt := (List.getElem?_eq_some_iff.1 ha).1
    simp only [horigin, decide_eq_true_eq, Option.some.injEq]
    omega
  · cases x with
    | command c => simp [Entry.answers]
    | answer n q r =>
      have hlt := (hd.completing n q r hx).1.lt
      simp only [Entry.answers, beq_iff_eq]
      omega
  · rw [executions, hexecuting, Nat.zero_add]
    refine List.countP_eq_zero.2 fun x hx => ?_
    obtain ⟨q, -, hsent, -⟩ := hd.returned x.1 x.2 hx
    have hlt := hsent.lt
    simp only [decide_eq_true_eq]
    omega

/-- A session that goes on without a word to the engines, and a queue with the same answers in it,
leave the ledger. -/
theorem Ledger.still (hd : d.Ledger) {s : Session} {queue : List Entry}
    (keeps : d.session.hub.Keeps False s.hub)
    (outside : ∀ c, .command c ∈ queue → ∀ q r, c ≠ .answered q r)
    (same : ∀ n, queue.countP (·.answers n) = d.queue.countP (·.answers n))
    (answers : ∀ n q r, .answer n q r ∈ queue → .answer n q r ∈ d.queue) :
    { d with session := s, queue := queue }.Ledger := by
  refine ⟨keeps.homed hd.homed, fun b => ?_, fun a ha hatt => ?_, outside, hd.running,
    fun n q r hr => hd.completing n q r (answers n q r hr), hd.returned, hd.heard,
    fun n a ha hatt => ?_⟩
  · rw [keeps.announced_eq id]
    exact hd.log b
  · obtain ⟨e, he⟩ := Option.isSome_iff_exists.1 (hd.attached a ha hatt)
    obtain ⟨e', he', -⟩ := keeps.some he
    simp [he']
  · refine (hd.accounts n a ha hatt).of_same rfl fun _ => ?_
    simp only [Desk.completing, same]
    rfl

/-- What was sent and what was returned stays so when more is entered. -/
theorem Sent.mono {d' : Desk} {n : Nat} {q : Inquiry} (h : d.Sent n q) {as : List Asked}
    (asked : d'.asked = d.asked ++ as) : d'.Sent n q := by
  obtain ⟨a, network, ha, hrest⟩ := h
  exact ⟨a, network, asked ▸ getElem?_entered as ha, hrest⟩

theorem Justified.mono {d' : Desk} {x : Heard} (h : d.Justified x) {as : List Asked}
    {rs : List (Nat × QueryResult)} (asked : d'.asked = d.asked ++ as)
    (returned : d'.returned = d.returned ++ rs) : d'.Justified x := by
  obtain ⟨n, a, r, horigin, ha, hsupported, hbackend, hannounced, hr⟩ := h
  refine ⟨n, a, r, horigin, asked ▸ getElem?_entered as ha, hsupported, hbackend, hannounced,
    hr.imp_left fun ⟨hs, hmem⟩ => ⟨hs, ?_⟩⟩
  rw [returned]
  exact List.mem_append_left rs hmem

/-- A hub that goes on still has its engines. -/
theorem isSome_of_keeps {h g : Hub} {answering : Prop} (keeps : h.Keeps answering g) {b : Backend}
    (hb : (h.engine? b).isSome) : (g.engine? b).isSome := by
  obtain ⟨e, he⟩ := Option.isSome_iff_exists.1 hb
  obtain ⟨e', he', -⟩ := keeps.some he
  simp [he']

theorem countP_numbered (k n : Nat) (qs : List Inquiry) :
    (qs.map (k, ·)).countP (·.1 = n) = if k = n then qs.length else 0 := by
  induction qs with
  | nil => simp
  | cons q qs ih =>
    rw [List.map_cons, List.countP_cons, ih]
    by_cases hk : k = n <;> simp [hk]

/-- What an engine heard of one request. -/
theorem answers_append {k : Nat} {xs : List Heard} (hxs : ∀ x ∈ xs, x.origin = some k) (n : Nat) :
    (d.heard ++ xs).countP (·.origin = some n) = d.answers n + if k = n then xs.length else 0 := by
  rw [List.countP_append, answers]
  congr 1
  by_cases hk : k = n
  · rw [if_pos hk]
    refine List.countP_eq_length.2 fun x hx => ?_
    simp [hxs x hx, hk]
  · rw [if_neg hk]
    refine List.countP_eq_zero.2 fun x hx => ?_
    simp [hxs x hx, hk]

/-- A request comes under the next number: with `q` queries that were sent for it and `x` answers.
The accounts of all others stay as they are. -/
theorem Ledger.accounts_entered (hd : d.Ledger) {d' : Desk} {a : Asked} {x q : Nat}
    (asked : d'.asked = d.asked ++ [a]) (returned : d'.returned = d.returned)
    (answers : ∀ n, d'.answers n = d.answers n + if d.asked.length = n then x else 0)
    (executing : ∀ n, d'.executing n = d.executing n + if d.asked.length = n then q else 0)
    (completing : ∀ n, d'.completing n = d.completing n)
    (account : a.Attached → (a.Served → q = 1) ∧ (¬a.Served → q = 0) ∧ (a.Supported → x + q = 1)) :
    ∀ n a', d'.asked[n]? = some a' → a'.Attached → d'.Account n a' := by
  intro n a' ha' hatt
  have hanswers := answers n
  have hexecuting := executing n
  have hcompleting := completing n
  have hexecutions : d'.executions n = d.executions n + if d.asked.length = n then q else 0 := by
    rw [executions, hexecuting, returned, executions]
    omega
  rw [asked] at ha'
  by_cases hn : d.asked.length = n
  · subst hn
    obtain rfl : a = a' := by simpa using ha'
    obtain ⟨hserved, hunserved, honce⟩ := account hatt
    obtain ⟨noAnswers, noneExecuting, noneCompleting, noExecutions⟩ := hd.fresh
    rw [if_pos rfl] at hanswers hexecuting hexecutions
    refine ⟨fun hs => ?_, fun hs => ?_, fun hs => ?_⟩
    · have := hserved hs
      omega
    · have := hunserved hs
      omega
    · have := honce hs
      omega
  · have hlt : n < d.asked.length := by
      have := (List.getElem?_eq_some_iff.1 ha').1
      simp only [List.length_append, List.length_singleton] at this
      omega
    rw [List.getElem?_append_left hlt] at ha'
    rw [if_neg hn, Nat.add_zero] at hanswers hexecuting hexecutions
    refine (hd.accounts n a' ha' hatt).of_same hexecutions fun _ => ?_
    rw [hanswers, hexecuting, hcompleting]

/-- A request is entered under the next number, with the queries that were sent for it and what the
engine heard at once: one of the two, if the engine is there and has the method. -/
theorem Ledger.entered (hd : d.Ledger) {answering : Prop} {s : Session} {a : Asked} {e : Entry}
    {rest : List Entry} {qs : List Inquiry} {xs : List Heard}
    (keeps : d.session.hub.Keeps answering s.hub)
    (log : ∀ b, s.hub.announced b =
      d.session.hub.announced b ++ (xs.filter (·.backend = b)).map (·.announced))
    (queue : d.queue = e :: rest) (plain : ∀ n, e.answers n = false)
    (here : a.Attached → (d.session.hub.engine? a.backend).isSome)
    (sent : ∀ q ∈ qs, a.Attached ∧ a.Served ∧ ∃ network, q = a.inquiry network)
    (heard : ∀ x ∈ xs, x.origin = some d.asked.length ∧ a.Supported ∧ x.backend = a.backend ∧
      ¬a.Served ∧ ∃ e, x.announced = a.answer (.error e))
    (account : a.Attached → (a.Served → qs.length = 1) ∧ (¬a.Served → qs.length = 0) ∧
      (a.Supported → xs.length + qs.length = 1)) :
    Ledger { d with
      session := s
      queue := rest
      running := d.running ++ qs.map (d.asked.length, ·)
      asked := d.asked ++ [a]
      heard := d.heard ++ xs } := by
  have last : (d.asked ++ [a])[d.asked.length]? = some a := by simp
  refine ⟨keeps.homed hd.homed, fun b => ?_, fun a' ha' hatt => ?_, fun c hc => ?_,
    fun n q hq => ?_, fun n q r hr => ?_, fun n r hr => ?_, fun x hx => ?_, fun n a' ha' hatt => ?_⟩
  · rw [log, hd.log, List.filter_append, List.map_append]
  · refine isSome_of_keeps keeps ?_
    rcases List.mem_append.1 ha' with ha' | ha'
    · exact hd.attached a' ha' hatt
    · rw [List.mem_singleton] at ha'
      subst ha'
      exact here hatt
  · exact hd.outside c (queue ▸ List.mem_cons_of_mem e hc)
  · rcases List.mem_append.1 hq with hq | hq
    · exact (hd.running n q hq).mono rfl
    · obtain ⟨q', hq', heq⟩ := List.mem_map.1 hq
      cases heq
      obtain ⟨hatt, hserved, network, hnetwork⟩ := sent q hq'
      exact ⟨a, network, last, hatt, hserved, hnetwork⟩
  · obtain ⟨hsent, hreturned⟩ := hd.completing n q r (queue ▸ List.mem_cons_of_mem e hr)
    exact ⟨hsent.mono rfl, hreturned⟩
  · obtain ⟨q, v, hsent, hv⟩ := hd.returned n r hr
    exact ⟨q, v, hsent.mono rfl, hv⟩
  · rcases List.mem_append.1 hx with hx | hx
    · exact (hd.heard x hx).mono rfl (List.append_nil _).symm
    · obtain ⟨horigin, hsupported, hbackend, hunserved, err, hannounced⟩ := heard x hx
      exact ⟨_, a, .error err, horigin, last, hsupported, hbackend, hannounced,
        .inr ⟨hunserved, err, rfl⟩⟩
  · refine hd.accounts_entered ?_ ?_ ?_ ?_ ?_ account n a' ha' hatt
    · rfl
    · rfl
    · exact answers_append fun x hx => (heard x hx).1
    · intro n
      rw [executing, List.countP_append, countP_numbered, executing]
    · intro n
      rw [Desk.completing, Desk.completing, queue, List.countP_cons, plain n]
      rfl

/-- The hub takes a request. -/
theorem Ledger.asked (hd : d.Ledger) {a : Asked} (here : a.hub = d.session.hub)
    {rest : List Entry} (queue : d.queue = .command a.command :: rest) :
    (d.turn (.command a.command) rest).Ledger := by
  have homed : a.hub.Homed := here ▸ hd.homed
  have keeps := Hub.keeps_process a.hub a.command
  have log := Hub.announced_news keeps.announced_prefix (some d.asked.length)
  have plain : ∀ n, (Entry.command a.command).answers n = false := fun _ => rfl
  have attached : a.Attached → (d.session.hub.engine? a.backend).isSome := fun h => here ▸ h
  rw [turn_asked d here homed]
  rw [here] at keeps log ⊢
  cases here ▸ (a.fate homed).1 with
  | lost detached queries same =>
    rw [queries]
    refine hd.entered keeps log queue plain attached (by simp) (fun x hx => ?_)
      fun hatt => absurd hatt detached
    rw [Hub.news_of_same (here ▸ same)] at hx
    cases hx
  | sent _ served network queries same =>
    have news := Hub.news_of_same (here ▸ same) (some d.asked.length)
    rw [queries]
    refine hd.entered keeps log queue plain attached (fun q hq => ?_) (fun x hx => ?_)
      fun _ => ⟨fun _ => rfl, fun hs => absurd served hs, fun _ => by simp [news]⟩
    · rw [List.mem_singleton] at hq
      exact ⟨by assumption, served, network, hq⟩
    · rw [news] at hx
      cases hx
  | refused _ unserved queries err told =>
    have news := Hub.news_of_one (here ▸ told) (some d.asked.length)
    rw [queries]
    refine hd.entered keeps log queue plain attached (by simp) (fun x hx => ?_)
      fun _ => ⟨fun hs => absurd hs unserved, fun _ => rfl, fun hs => by simp [news, hs]⟩
    rw [news] at hx
    split at hx
    · rename_i supported
      rw [List.mem_singleton] at hx
      subst hx
      exact ⟨rfl, supported, rfl, unserved, err, rfl⟩
    · cases hx

/-- An answer is taken from the queue, and the engine heard it, if it has the method. -/
theorem Ledger.taken (hd : d.Ledger) {answering : Prop} {s : Session} {n : Nat} {q : Inquiry}
    {r : QueryResult} {rest : List Entry} {xs : List Heard}
    (keeps : d.session.hub.Keeps answering s.hub)
    (log : ∀ b, s.hub.announced b =
      d.session.hub.announced b ++ (xs.filter (·.backend = b)).map (·.announced))
    (queue : d.queue = .answer n q r :: rest)
    (heard : ∀ x ∈ xs, x.origin = some n ∧ d.Justified x)
    (account : ∀ a, d.asked[n]? = some a → a.Supported → xs.length = 1) :
    Ledger { d with session := s, queue := rest, heard := d.heard ++ xs } := by
  refine ⟨keeps.homed hd.homed, fun b => ?_, fun a ha hatt => ?_, fun c hc => ?_, hd.running,
    fun m q' r' hr => ?_, hd.returned, fun x hx => ?_, fun m a ha hatt => ?_⟩
  · rw [log, hd.log, List.filter_append, List.map_append]
  · exact isSome_of_keeps keeps (hd.attached a ha hatt)
  · exact hd.outside c (queue ▸ List.mem_cons_of_mem _ hc)
  · exact hd.completing m q' r' (queue ▸ List.mem_cons_of_mem _ hr)
  · rcases List.mem_append.1 hx with hx | hx
    · exact hd.heard x hx
    · exact (heard x hx).2
  · have hanswers : (d.heard ++ xs).countP (·.origin = some m) =
        d.answers m + if n = m then xs.length else 0 :=
      answers_append (fun x hx => (heard x hx).1) m
    have hcompleting : d.completing m = rest.countP (·.answers m) + if n = m then 1 else 0 := by
      rw [Desk.completing, queue, List.countP_cons]
      by_cases hm : n = m <;> simp [Entry.answers, hm]
    refine (hd.accounts m a ha hatt).of_same rfl fun hs => ?_
    by_cases hm : n = m
    · subst hm
      have := account a ha hs
      rw [if_pos rfl] at hanswers hcompleting
      simp only [answers, executing, Desk.completing] at *
      omega
    · rw [if_neg hm] at hanswers hcompleting
      simp only [answers, executing, Desk.completing] at *
      omega

/-- The hub takes the answer to a request. -/
theorem Ledger.answered (hd : d.Ledger) {n : Nat} {q : Inquiry} {r : QueryResult}
    {rest : List Entry} (queue : d.queue = .answer n q r :: rest) :
    (d.turn (.answer n q r) rest).Ledger := by
  obtain ⟨hsent, hreturned⟩ := hd.completing n q r (queue ▸ List.mem_cons_self)
  obtain ⟨a, network, ha, hatt, hserved, rfl⟩ := hsent
  have attached := hd.attached a (List.mem_of_getElem? ha) hatt
  have keeps := Hub.keeps_process d.session.hub (.answered (a.inquiry network) r)
  have log := Hub.announced_news keeps.announced_prefix (some n)
  have news := Hub.news_of_one (d.told_answer network hd.homed attached r) (some n)
  rw [news] at log
  rw [turn_answer d network hd.homed attached]
  refine hd.taken keeps log queue (fun x hx => ?_) fun a' ha' hs => ?_
  · split at hx
    · rename_i supported
      rw [List.mem_singleton] at hx
      subst hx
      exact ⟨rfl, n, a, r, rfl, ha, supported, rfl, rfl, .inl ⟨hserved, hreturned⟩⟩
    · cases hx
  · obtain rfl : a = a' := Option.some.inj (ha.symm.trans ha')
    rw [if_pos hs]
    rfl

/-- The service is done with a query: its answer is on its way. -/
theorem Ledger.finished (hd : d.Ledger) {before after : List (Nat × Inquiry)} {n : Nat}
    {q : Inquiry} (running : d.running = before ++ (n, q) :: after)
    (v : Except QueryError q.request.Value) :
    Ledger { d with
      running := before ++ after
      queue := d.queue ++ [.answer n q (q.request.result v)]
      returned := d.returned ++ [(n, q.request.result v)] } := by
  have hsent : d.Sent n q := hd.running n q (by rw [running]; simp)
  have hexecuting : ∀ m, d.executing m =
      (before ++ after).countP (·.1 = m) + if n = m then 1 else 0 := by
    intro m
    rw [executing, running, List.countP_append, List.countP_append, List.countP_cons]
    by_cases hm : n = m
    · simp [hm]
      omega
    · simp [hm]
  have hcompleting : ∀ m, (d.queue ++ [Entry.answer n q (q.request.result v)]).countP
      (·.answers m) = d.completing m + if n = m then 1 else 0 := by
    intro m
    rw [List.countP_append]
    by_cases hm : n = m <;> simp [Entry.answers, Desk.completing, hm]
  have hreturned : ∀ m, (d.returned ++ [(n, q.request.result v)]).countP (·.1 = m) =
      d.returned.countP (·.1 = m) + if n = m then 1 else 0 := by
    intro m
    rw [List.countP_append]
    by_cases hm : n = m <;> simp [hm]
  refine ⟨hd.homed, hd.log, hd.attached, fun c hc => ?_, fun m q' hq => ?_, fun m q' r hr => ?_,
    fun m r hr => ?_, fun x hx => ?_, fun m a ha hatt => ?_⟩
  · rcases List.mem_append.1 hc with hc | hc
    · exact hd.outside c hc
    · simp at hc
  · refine hd.running m q' ?_
    rw [running]
    rcases List.mem_append.1 hq with hq | hq
    · exact List.mem_append_left _ hq
    · exact List.mem_append_right _ (List.mem_cons_of_mem _ hq)
  · rcases List.mem_append.1 hr with hr | hr
    · obtain ⟨hs, hmem⟩ := hd.completing m q' r hr
      exact ⟨hs, List.mem_append_left _ hmem⟩
    · rw [List.mem_singleton] at hr
      cases hr
      exact ⟨hsent, List.mem_append_right _ List.mem_cons_self⟩
  · rcases List.mem_append.1 hr with hr | hr
    · exact hd.returned m r hr
    · rw [List.mem_singleton] at hr
      cases hr
      exact ⟨q, v, hsent, rfl⟩
  · exact (hd.heard x hx).mono (List.append_nil _).symm rfl
  · have h1 := hexecuting m
    have h2 := hcompleting m
    have h3 := hreturned m
    refine (hd.accounts m a ha hatt).of_same ?_ fun _ => ?_
    · simp only [executions, executing] at h1 h3 ⊢
      omega
    · simp only [answers, executing, Desk.completing] at h1 h2 ⊢
      omega

end

/-! ## Runs -/

theorem ledger_opened (strict hasClient : Bool) (utxo account : Option Bool) :
    (opened strict hasClient utxo account).Ledger := by
  have created : ∀ b e, (opened strict hasClient utxo account).session.hub.engine? b = some e →
      ∃ echo, e = .create b echo := fun b e he => Session.engine_opened he
  refine ⟨fun b e he => ?_, fun b => ?_, by simp [opened], by simp [opened], by simp [opened],
    by simp [opened], by simp [opened], by simp [opened], by simp [opened]⟩
  · obtain ⟨echo, rfl⟩ := created b e he
    rfl
  · unfold Hub.announced
    cases he : (opened strict hasClient utxo account).session.hub.engine? b with
    | none => rfl
    | some e =>
      obtain ⟨echo, rfl⟩ := created b e he
      rfl

theorem Reachable.ledger {d : Desk} (hd : d.Reachable) : d.Ledger := by
  induction hd with
  | opened strict hasClient utxo account => exact ledger_opened strict hasClient utxo account
  | @step d _ _ hstep ih =>
    have refl : d.session.hub.Keeps False d.session.hub := .refl (fun _ => .of_same rfl rfl) _
    cases hstep with
    | arrive c outside =>
      refine ih.still (s := d.session) refl (fun c' hc => ?_) (fun n => ?_) fun n q r hr => ?_
      · rcases List.mem_append.1 hc with hc | hc
        · exact ih.outside c' hc
        · rw [List.mem_singleton] at hc
          cases hc
          exact outside
      · simp [List.countP_append, Entry.answers]
      · simpa using hr
    | @turn e rest queue running =>
      cases e with
      | answer n q r => exact ih.answered queue
      | command c =>
        by_cases plain : c.isAnswering = false
        · have keeps := Hub.keeps_process d.session.hub c
          rw [show (c.isAnswering = true) = False by simp [plain]] at keeps
          rw [turn_command d plain]
          refine ih.still (s := d.session.take c) keeps (fun c' hc => ?_) (fun n => ?_)
            fun n q r hr => ?_
          · rcases List.mem_append.1 hc with hc | hc
            · obtain ⟨x, -, hx⟩ := List.mem_map.1 hc
              cases hx
              simp
            · exact ih.outside c' (queue ▸ List.mem_cons_of_mem _ hc)
          · have hraised : ∀ xs : List (Backend × EngineCallback),
                (xs.map fun c => Entry.command (.callback c.1 c.2)).countP (·.answers n) = 0 := by
              intro xs
              rw [List.countP_map]
              exact List.countP_eq_zero.2 fun x _ => by simp [Entry.answers]
            rw [List.countP_append, hraised, queue, List.countP_cons]
            simp [Entry.answers]
          · rw [queue]
            simpa using hr
        · -- of the commands that are left, nobody but the service sends answers
          cases c with
          | callback b cb =>
            cases cb with
            | queryRequested k i q => exact ih.asked (a := ⟨d.session.hub, b, k, i, q⟩) rfl queue
            | manager | wallet | transfer => exact absurd rfl plain
          | answered q r => exact absurd rfl (ih.outside _ (queue ▸ List.mem_cons_self) q r)
          | request | register | remove | flush | shutdown => exact absurd rfl plain
    | finish running v => exact ih.finished running v
    | setting b x =>
      exact ih.still (d.session.hub.keeps_adjusted b x) ih.outside (fun _ => rfl) fun _ _ _ => id
    | clock now => exact ih.still refl ih.outside (fun _ => rfl) fun _ _ _ => id

/-- What becomes of the `n`th request that the hub takes. -/
structure Answered (d : Desk) (n : Nat) (a : Asked) : Prop where
  /-- It is answered, or the service is at work on it, or its answer waits: one of them, once. -/
  once : a.Supported → d.answers n + d.executing n + d.completing n = 1
  never : ¬a.Supported → d.answers n = 0
  /-- The engine that asked hears the answer, under its own number and through the right method. -/
  addressed : ∀ x ∈ d.heard, x.origin = some n → x.backend = a.backend ∧
    x.announced.manager = a.manager ∧ x.announced.id = a.id ∧
      x.announced.announcement.name = a.request.method
  /-- Nobody is asked for an unknown manager or without a service: that is a failure. -/
  refused : ¬a.Served → d.executions n = 0 ∧
    ∀ x ∈ d.heard, x.origin = some n → x.announced.announcement.isSuccess = false
  /-- The service is asked once, and the answer is what it returned. -/
  served : a.Served → d.executions n = 1 ∧
    ∀ x ∈ d.heard, x.origin = some n → ∃ r, (n, r) ∈ d.returned ∧
      x.announced.announcement = .ofResult a.request r ∧
        x.announced.announcement.isSuccess = succeeded r

/-- **Answers.** In every run, with queries that are finished in any order, whatever an engine hears
is the answer to a request that it raised, and every request that the hub takes from an engine is
answered once, or will be. -/
theorem answered_once {d : Desk} (hd : d.Reachable) :
    (∀ b, d.session.hub.announced b = (d.heard.filter (·.backend = b)).map (·.announced)) ∧
    (∀ x ∈ d.heard, ∃ n < d.asked.length, x.origin = some n) ∧
    ∀ n a, d.asked[n]? = some a → a.Attached → d.Answered n a := by
  have ledger := hd.ledger
  refine ⟨ledger.log, fun x hx => ?_, fun n a ha hatt => ?_⟩
  · obtain ⟨n, a, -, horigin, ha, -⟩ := ledger.heard x hx
    exact ⟨n, (List.getElem?_eq_some_iff.1 ha).1, horigin⟩
  · have haccount := ledger.accounts n a ha hatt
    -- what was heard of this request is justified by this request
    have own : ∀ x ∈ d.heard, x.origin = some n → ∃ r, a.Supported ∧ x.backend = a.backend ∧
        x.announced = a.answer r ∧
          (a.Served ∧ (n, r) ∈ d.returned ∨ ¬a.Served ∧ ∃ e, r = .error e) := by
      intro x hx horigin
      obtain ⟨m, a', r, horigin', ha', hrest⟩ := ledger.heard x hx
      obtain rfl : n = m := Option.some.inj (horigin.symm.trans horigin')
      obtain rfl : a = a' := Option.some.inj (ha.symm.trans ha')
      exact ⟨r, hrest⟩
    refine ⟨haccount.once, fun hs => ?_, fun x hx horigin => ?_, fun hs => ?_, fun hs => ?_⟩
    · refine List.countP_eq_zero.2 fun x hx horigin => hs ?_
      obtain ⟨r, supported, -⟩ := own x hx (by simpa using horigin)
      exact supported
    · obtain ⟨r, -, hbackend, hannounced, -⟩ := own x hx horigin
      rw [hannounced]
      exact ⟨hbackend, rfl, rfl, Announcement.name_ofResult _ _⟩
    · refine ⟨haccount.unserved hs, fun x hx horigin => ?_⟩
      obtain ⟨r, -, -, hannounced, ⟨hserved, -⟩ | ⟨-, e, rfl⟩⟩ := own x hx horigin
      · exact absurd hserved hs
      · rw [hannounced]
        exact Announcement.isSuccess_ofResult_error _ _
    · refine ⟨haccount.served hs, fun x hx horigin => ?_⟩
      obtain ⟨r, -, -, hannounced, ⟨-, hreturned⟩ | ⟨hunserved, -⟩⟩ := own x hx horigin
      · refine ⟨r, hreturned, by rw [hannounced]; rfl, ?_⟩
        obtain ⟨q, v, ⟨a', network, ha', -, -, rfl⟩, rfl⟩ := ledger.returned n r hreturned
        obtain rfl : a = a' := Option.some.inj (ha.symm.trans ha')
        rw [hannounced]
        exact Announcement.isSuccess_ofResult_result a.request v
      · exact absurd hs hunserved

/-! ## Two queries that cross -/

/-- A command is sent to the hub. -/
def send (d : Desk) (c : Command) : Desk := { d with queue := d.queue ++ [.command c] }

/-- The hub takes what is first in the queue, if it takes anything. -/
def next (d : Desk) : Desk :=
  match d.queue with
  | [] => d
  | e :: rest => if d.session.life = .running then d.turn e rest else d

/-- The service is done with the query at this place. -/
def finish (d : Desk) (i : Nat) (serve : (q : Inquiry) → Except QueryError q.request.Value) :
    Desk :=
  match d.running[i]? with
  | none => d
  | some (n, q) => { d with
      running := d.running.take i ++ d.running.drop (i + 1)
      queue := d.queue ++ [.answer n q (q.request.result (serve q))]
      returned := d.returned ++ [(n, q.request.result (serve q))] }

theorem Reachable.send {d : Desk} (hd : d.Reachable) {c : Command}
    (outside : ∀ q r, c ≠ .answered q r) : (d.send c).Reachable := hd.step (.arrive c outside)

theorem Reachable.next {d : Desk} (hd : d.Reachable) : d.next.Reachable := by
  unfold Desk.next
  split
  · exact hd
  · rename_i queue
    split
    · rename_i running; exact hd.step (.turn queue running)
    · exact hd

theorem Reachable.finish {d : Desk} (hd : d.Reachable) (i : Nat)
    (serve : (q : Inquiry) → Except QueryError q.request.Value) : (d.finish i serve).Reachable := by
  unfold Desk.finish
  split
  · exact hd
  · rename_i n q hq
    obtain ⟨hi, hget⟩ := List.getElem?_eq_some_iff.1 hq
    have running : d.running = d.running.take i ++ (n, q) :: d.running.drop (i + 1) := by
      rw [← hget, ← List.drop_eq_getElem_cons hi, List.take_append_drop]
    exact hd.step (.finish running (serve q))

/-- A manager with two queries, and a third for a manager that does not exist. -/
def asking : Desk :=
  ((((((((opened true true none (some false)).send
    (.request (.createManager ⟨⟨"dave", 0⟩, .ethereum true, .apiOnly, "/tmp/dave"⟩))).send
    (.callback .account (.queryRequested 0x2000 ⟨7⟩ .blockNumber))).send
    (.callback .account (.queryRequested 0x2000 ⟨8⟩ .gasPrice))).send
    (.callback .account (.queryRequested 0x3000 ⟨9⟩ .gasPrice))).next).next).next).next

/-- A service that knows the price of gas and nothing else. -/
def gasOnly (q : Inquiry) : Except QueryError q.request.Value :=
  match q.request with
  | .gasPrice => .ok "30"
  | _ => .error (.rejected "not here")

/-- The second query is finished first, and the first one is still on its way. -/
def crossed : Desk := ((asking.finish 1 gasOnly).finish 0 gasOnly).next

theorem reachable_crossed : crossed.Reachable := by
  have hasking : asking.Reachable :=
    ((((((((Reachable.opened ..).send (by simp)).send (by simp)).send (by simp)).send
      (by simp)).next).next).next).next
  exact ((hasking.finish 1 gasOnly).finish 0 gasOnly).next

theorem answered_once_crossed :
    (∀ n a, crossed.asked[n]? = some a → a.Attached → crossed.Answered n a) ∧
      (crossed.session.hub.announced .account).map
        (fun x => (x.id.raw, x.announcement.name, x.announcement.isSuccess)) =
          [(9, "gas_price", false), (8, "gas_price", true)] ∧
      (crossed.answers 0, crossed.executing 0, crossed.completing 0) = (0, 0, 1) :=
  ⟨(answered_once reachable_crossed).2.2, by decide +kernel, by decide +kernel⟩

end Desk
end WalletHub
