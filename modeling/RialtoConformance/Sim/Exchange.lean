/-
**Talking to the simulator.**

`SimControl` drives the server manager's simulator over HTTP/1.0: one connection for each request,
and the reply is what the peer sends until it closes.  The loop that receives it ends where `recv`
returns no bytes, and does not tell an orderly close from an error.

Main definitions:

* `Sim.Network` — what the system calls of one exchange come to;
* `Sim.httpExchange` — the exchange, and `Sim.SimControl.getState`, `Sim.SimControl.setState` on top
  of it;
* `Sim.Orderly`, `Sim.Failed` — how an exchange goes;
* `Sim.Honest` — a failed exchange is not taken for an answer;
* `Sim.CutOff` — an error behind a part of the reply.

Main results:

* `Sim.sendLoop_eq_some_iff` — what the loop that sends comes to;
* `Sim.recvLoop_recvs` — **what the loop that receives comes to**, however the reply is cut;
* `Sim.httpExchange_of_sent`, `Sim.httpExchange_of_not_sent` — the exchange;
* `Sim.honest_iff` — **when a failed exchange is not taken for an answer**.
-/
import RialtoConformance.Lib.Text

set_option relaxedAutoImplicit false
set_option autoImplicit false

namespace Sim

open Text

/-! ### The exchange -/

/-- `std::string`. -/
abbrev Bytes := List UInt8

def ascii (s : String) : Bytes := s.toList.map fun c => UInt8.ofNat c.toNat

/-- What `recv` stores when it returns a positive number. -/
structure Chunk where
  bytes : Bytes
  nonempty : bytes ≠ []

/-- What a call of `recv` comes to: a positive number, zero or `-1`. -/
inductive RecvResult
  | data (chunk : Chunk)
  | closed
  | error

/-- How a reply ends. -/
inductive Ending
  | close
  | error
  deriving DecidableEq

/-- The call of `recv` that ends a reply. -/
def Ending.result : Ending → RecvResult
  | .close => .closed
  | .error => .error

/-- What becomes of one of the addresses that `getaddrinfo` names. -/
inductive Attempt
  | noSocket
  | refused
  | connected

/-- **What the system calls of one exchange come to.** -/
structure Network where
  /-- `getaddrinfo`, or `none` where it fails. -/
  getaddrinfo : Bytes → Bytes → Option (List Attempt)
  /-- What the calls of `send` return. -/
  sends : List ℤ
  /-- The parts of the reply. -/
  chunks : List Chunk
  ending : Ending

/-- What the calls of `recv` come to. -/
def Network.recvs (net : Network) : List RecvResult :=
  net.chunks.map .data ++ [net.ending.result]

/-- The loop over the addresses: whether one of them can be connected to. -/
def openSocket : List Attempt → Bool
  | [] => false
  | .connected :: _ => true
  | _ :: rest => openSocket rest

/-- The loop that sends what is left of a request: whether all of it has been sent.  Without a
further result `send` does not return. -/
def sendLoop : ℕ → List ℤ → Option Bool
  | 0, _ => some true
  | _ + 1, [] => none
  | left + 1, n :: sends => if n ≤ 0 then some false else sendLoop (left + 1 - n.toNat) sends

def recvLoop : List RecvResult → Bytes → Option Bytes
  | [], _ => none
  | .data chunk :: recvs, reply => recvLoop recvs (reply ++ chunk.bytes)
  | .closed :: _, reply => some reply
  | .error :: _, reply => some reply

/-- **`httpExchange`**: the reply, or nothing where a call does not return. -/
def httpExchange (net : Network) (host port request : Bytes) : Option Bytes :=
  match net.getaddrinfo host port with
  | none => some []
  | some attempts =>
      if !openSocket attempts then some []
      else
        match sendLoop request.length net.sends with
        | none => none
        | some false => some []
        | some true => recvLoop net.recvs []

/-- `httpBody`. -/
def httpBody (reply : Bytes) : Bytes :=
  match search (ascii "\r\n\r\n") reply with
  | none => []
  | some pos => reply.drop (pos + (ascii "\r\n\r\n").length)

/-! ### The calls of `SimControl` -/

/-- `SimControl`. -/
structure SimControl where
  host : Bytes
  port : Bytes
  app : Bytes

/-- The request of `setState`. -/
def SimControl.setStateRequest (sim : SimControl) (state : Bytes) : Bytes :=
  ascii "POST /SetState/" ++ sim.app ++ ascii "/" ++ state ++ ascii " HTTP/1.0\r\n" ++
    ascii "Host: " ++ sim.host ++ ascii "\r\nContent-Length: 0\r\n\r\n"

/-- The request of `getState`. -/
def SimControl.getStateRequest (sim : SimControl) : Bytes :=
  ascii "GET /GetState/" ++ sim.app ++ ascii " HTTP/1.0\r\n" ++ ascii "Host: " ++ sim.host ++
    ascii "\r\n\r\n"

/-- The sim replies that the command succeeded. -/
def confirms (reply : Bytes) : Bool := (search (ascii "succeeded") (httpBody reply)).isSome

/-- `isalpha`. -/
def isAlpha (c : UInt8) : Bool := (65 ≤ c && c ≤ 90) || (97 ≤ c && c ≤ 122)

def reportedState (reply : Bytes) : Bytes :=
  match search (ascii "returned: ") (httpBody reply) with
  | none => []
  | some pos => ((httpBody reply).drop (pos + (ascii "returned: ").length)).takeWhile isAlpha

/-- **`setState`.** -/
def SimControl.setState (sim : SimControl) (net : Network) (state : Bytes) : Option Bool :=
  (httpExchange net sim.host sim.port (sim.setStateRequest state)).map confirms

/-- **`getState`.** -/
def SimControl.getState (sim : SimControl) (net : Network) : Option Bytes :=
  (httpExchange net sim.host sim.port sim.getStateRequest).map reportedState

/-! ### What the loops come to -/

/-- Calls of `send` that each send something. -/
def Progress (sent : List ℤ) : Prop := ∀ n ∈ sent, 0 < n

/-- Calls that each send something have sent a number of bytes, with further calls behind them, such
that `P`. -/
def SentThen (P : ℤ → List ℤ → Prop) (sends : List ℤ) : Prop :=
  ∃ sent rest, sends = sent ++ rest ∧ Progress sent ∧ P sent.sum rest

def SendsAll (size : ℕ) (sends : List ℤ) : Prop := SentThen (fun total _ => size ≤ total) sends

/-- A call sends nothing before every byte is sent. -/
def SendFails (size : ℕ) (sends : List ℤ) : Prop :=
  SentThen (fun total rest => total < size ∧ ∃ n ∈ rest.head?, n ≤ 0) sends

theorem progress_cons {n : ℤ} {sent : List ℤ} : Progress (n :: sent) ↔ 0 < n ∧ Progress sent :=
  List.forall_mem_cons

theorem Progress.sum_nonneg {sent : List ℤ} (h : Progress sent) : 0 ≤ sent.sum :=
  List.sum_nonneg fun n hn => (h n hn).le

theorem SentThen.congr {P Q : ℤ → List ℤ → Prop} {sends : List ℤ}
    (h : ∀ total rest, 0 ≤ total → (P total rest ↔ Q total rest)) :
    SentThen P sends ↔ SentThen Q sends := by
  constructor
  · rintro ⟨sent, rest, hsends, hsent, hP⟩
    exact ⟨sent, rest, hsends, hsent, (h _ _ hsent.sum_nonneg).1 hP⟩
  · rintro ⟨sent, rest, hsends, hsent, hQ⟩
    exact ⟨sent, rest, hsends, hsent, (h _ _ hsent.sum_nonneg).2 hQ⟩

theorem sentThen_nil {P : ℤ → List ℤ → Prop} : SentThen P [] ↔ P 0 [] := by
  constructor
  · rintro ⟨sent, rest, hsends, -, hP⟩
    obtain ⟨rfl, rfl⟩ := List.append_eq_nil_iff.1 hsends.symm
    exact hP
  · intro hP
    exact ⟨[], [], rfl, by simp [Progress], hP⟩

/-- **The first call** is not looked at, or it sends something. -/
theorem sentThen_cons {P : ℤ → List ℤ → Prop} {n : ℤ} {sends : List ℤ} :
    SentThen P (n :: sends) ↔
      P 0 (n :: sends) ∨ 0 < n ∧ SentThen (fun total rest => P (n + total) rest) sends := by
  constructor
  · rintro ⟨sent, rest, hsends, hsent, hP⟩
    cases sent with
    | nil =>
        obtain rfl : rest = n :: sends := hsends.symm
        exact Or.inl hP
    | cons m sent =>
        obtain ⟨rfl, rfl⟩ := List.cons.inj hsends
        obtain ⟨hn, hrest⟩ := progress_cons.1 hsent
        rw [List.sum_cons] at hP
        exact Or.inr ⟨hn, sent, rest, rfl, hrest, hP⟩
  · rintro (hP | ⟨hn, sent, rest, rfl, hsent, hP⟩)
    · exact ⟨[], n :: sends, rfl, by simp [Progress], hP⟩
    · refine ⟨n :: sent, rest, rfl, progress_cons.2 ⟨hn, hsent⟩, ?_⟩
      rwa [List.sum_cons]

theorem sendsAll_zero (sends : List ℤ) : SendsAll 0 sends :=
  ⟨[], sends, rfl, by simp [Progress], le_rfl⟩

theorem not_sendFails_zero (sends : List ℤ) : ¬ SendFails 0 sends := by
  rintro ⟨sent, rest, -, hsent, hsum, -⟩
  have := hsent.sum_nonneg
  omega

theorem sendsAll_cons {left : ℕ} {n : ℤ} {sends : List ℤ} :
    SendsAll (left + 1) (n :: sends) ↔ 0 < n ∧ SendsAll (left + 1 - n.toNat) sends := by
  rw [SendsAll, sentThen_cons, or_iff_right (by omega)]
  exact and_congr_right fun hn => SentThen.congr fun total rest htotal => by omega

theorem sendFails_cons {left : ℕ} {n : ℤ} {sends : List ℤ} :
    SendFails (left + 1) (n :: sends) ↔ n ≤ 0 ∨ 0 < n ∧ SendFails (left + 1 - n.toNat) sends := by
  rw [SendFails, sentThen_cons]
  refine or_congr ?_ (and_congr_right fun hn => SentThen.congr fun total rest htotal => ?_)
  · simp only [List.head?_cons, Option.mem_some_iff, exists_eq_left']
    omega
  · exact and_congr_left fun _ => by omega

theorem sendLoop_zero (sends : List ℤ) :
    (sendLoop 0 sends = some true ↔ SendsAll 0 sends) ∧
      (sendLoop 0 sends = some false ↔ SendFails 0 sends) := by
  have hdone : sendLoop 0 sends = some true := by rw [sendLoop]
  rw [hdone]
  exact ⟨iff_of_true rfl (sendsAll_zero sends), iff_of_false (by simp) (not_sendFails_zero sends)⟩

/-- **What the loop that sends comes to**: everything is sent, or a call has failed. -/
theorem sendLoop_eq_some_iff : ∀ {sends : List ℤ} {size : ℕ},
    (sendLoop size sends = some true ↔ SendsAll size sends) ∧
      (sendLoop size sends = some false ↔ SendFails size sends) := by
  intro sends
  induction sends with
  | nil =>
      intro size
      cases size with
      | zero => exact sendLoop_zero _
      | succ left =>
          rw [SendsAll, SendFails, sentThen_nil, sentThen_nil]
          exact ⟨iff_of_false (by simp [sendLoop]) (by omega),
            iff_of_false (by simp [sendLoop]) (by simp)⟩
  | cons n sends ih =>
      intro size
      cases size with
      | zero => exact sendLoop_zero _
      | succ left =>
          rw [sendLoop, sendsAll_cons, sendFails_cons]
          by_cases hn : n ≤ 0
          · rw [if_pos hn]
            exact ⟨iff_of_false (by simp) (by omega), iff_of_true rfl (Or.inl hn)⟩
          · have hpos : 0 < n := by omega
            rw [if_neg hn, and_iff_right hpos, or_iff_right hn, and_iff_right hpos]
            exact ih

def Network.received (net : Network) : Bytes := net.chunks.flatMap Chunk.bytes

/-- **The loop receives** all that comes before the end, and the end makes no difference. -/
theorem recvLoop_recvs {ending : Ending} : ∀ {chunks : List Chunk} {reply : Bytes},
    recvLoop (chunks.map .data ++ [ending.result]) reply =
      some (reply ++ chunks.flatMap Chunk.bytes) := by
  intro chunks
  induction chunks with
  | nil =>
      intro reply
      rw [List.flatMap_nil, List.append_nil]
      cases ending <;> rfl
  | cons chunk chunks ih =>
      intro reply
      rw [List.map_cons, List.cons_append, recvLoop, ih, List.flatMap_cons, List.append_assoc]

/-! ### How an exchange goes -/

/-- One of the addresses of the sim can be connected to. -/
def Network.Connects (net : Network) (host port : Bytes) : Prop :=
  ∃ attempts, net.getaddrinfo host port = some attempts ∧ openSocket attempts = true

/-- **An orderly exchange**: every byte is sent, and the peer closes in order. -/
structure Orderly (net : Network) (host port request : Bytes) : Prop where
  connects : net.Connects host port
  sent : SendsAll request.length net.sends
  closed : net.ending = .close

/-- **A failed exchange**: no connection, or a call of `send` or `recv` that fails. -/
inductive Failed (net : Network) (host port request : Bytes) : Prop
  | connect (h : ¬ net.Connects host port)
  | send (hconnects : net.Connects host port) (h : SendFails request.length net.sends)
  | recv (hconnects : net.Connects host port) (hsent : SendsAll request.length net.sends)
      (h : net.ending = .error)

theorem httpExchange_of_not_connects {net : Network} {host port request : Bytes}
    (h : ¬ net.Connects host port) : httpExchange net host port request = some [] := by
  rw [httpExchange]
  cases haddresses : net.getaddrinfo host port with
  | none => rfl
  | some attempts =>
      have hopen : openSocket attempts = false := by
        by_contra habs
        exact h ⟨attempts, haddresses, by simpa using habs⟩
      simp only [hopen, Bool.not_false, if_true]

theorem httpExchange_of_connects {net : Network} {host port request : Bytes}
    (h : net.Connects host port) : httpExchange net host port request =
      (sendLoop request.length net.sends).map fun ok => if ok then net.received else [] := by
  obtain ⟨attempts, haddresses, hopen⟩ := h
  rw [httpExchange, haddresses]
  simp only [hopen, Bool.not_true, Bool.false_eq_true, if_false]
  cases sendLoop request.length net.sends with
  | none => rfl
  | some ok =>
      cases ok with
      | false => rfl
      | true => exact recvLoop_recvs

/-- **A request that is sent is answered** with all that is received, however the reply ends. -/
theorem httpExchange_of_sent {net : Network} {host port request : Bytes}
    (hconnects : net.Connects host port) (hsent : SendsAll request.length net.sends) :
    httpExchange net host port request = some net.received := by
  rw [httpExchange_of_connects hconnects, sendLoop_eq_some_iff.1.2 hsent]
  rfl

/-- A request that is not sent is answered with nothing. -/
theorem httpExchange_of_not_sent {net : Network} {host port request : Bytes}
    (hconnects : net.Connects host port) (hfails : SendFails request.length net.sends) :
    httpExchange net host port request = some [] := by
  rw [httpExchange_of_connects hconnects, sendLoop_eq_some_iff.2.2 hfails]
  rfl

/-! ### What is taken for an answer -/

/-- A use of the exchange: a request of its own, or one of the two of `SimControl`. -/
inductive Call
  | exchange (request : Bytes)
  | getState
  | setState (state : Bytes)

def SimControl.request (sim : SimControl) : Call → Bytes
  | .exchange request => request
  | .getState => sim.getStateRequest
  | .setState state => sim.setStateRequest state

/-- What a call returns. -/
inductive Answer
  | reply (bytes : Bytes)
  | state (state : Bytes)
  | accepted (ok : Bool)
  deriving DecidableEq

/-- **What a call comes to.** -/
def SimControl.answer (sim : SimControl) (net : Network) : Call → Option Answer
  | .exchange request => (httpExchange net sim.host sim.port request).map .reply
  | .getState => (sim.getState net).map .state
  | .setState state => (sim.setState net state).map .accepted

def Call.read : Call → Bytes → Answer
  | .exchange _, reply => .reply reply
  | .getState, reply => .state (reportedState reply)
  | .setState _, reply => .accepted (confirms reply)

/-- No answer: the empty reply, the empty state, and `false`. -/
def Call.noAnswer : Call → Answer
  | .exchange _ => .reply []
  | .getState => .state []
  | .setState _ => .accepted false

theorem answer_eq (sim : SimControl) (net : Network) (call : Call) : sim.answer net call =
    (httpExchange net sim.host sim.port (sim.request call)).map call.read := by
  cases call with
  | exchange request => rfl
  | getState => exact Option.map_map ..
  | setState state => exact Option.map_map ..

theorem read_nil (call : Call) : call.read [] = call.noAnswer := by
  cases call with
  | exchange request => rfl
  | getState => rfl
  | setState state => rfl

/-- **A failed exchange is never taken for an answer**, and an orderly one is taken for what was
received, however it was cut. -/
structure Honest (sim : SimControl) (call : Call) (net : Network) : Prop where
  /-- After an orderly exchange the reply is all that was received. -/
  whole : Orderly net sim.host sim.port (sim.request call) →
    httpExchange net sim.host sim.port (sim.request call) = some net.received
  /-- After a failed one it is empty. -/
  empty : Failed net sim.host sim.port (sim.request call) →
    httpExchange net sim.host sim.port (sim.request call) = some []
  /-- The call then has no answer. -/
  unanswered : Failed net sim.host sim.port (sim.request call) →
    sim.answer net call = some call.noAnswer
  /-- Between orderly exchanges that receive the same the call makes no difference. -/
  recut : Orderly net sim.host sim.port (sim.request call) → ∀ net' : Network,
    Orderly net' sim.host sim.port (sim.request call) → net'.received = net.received →
      sim.answer net' call = sim.answer net call

/-- An error behind a part of the reply. -/
structure CutOff (net : Network) (host port request : Bytes) : Prop where
  connects : net.Connects host port
  sent : SendsAll request.length net.sends
  some_chunk : net.chunks ≠ []
  error : net.ending = .error

theorem received_eq_nil_iff {net : Network} : net.received = [] ↔ net.chunks = [] := by
  rw [Network.received]
  cases net.chunks with
  | nil => exact iff_of_true rfl rfl
  | cons chunk chunks =>
      refine iff_of_false ?_ (List.cons_ne_nil _ _)
      rw [List.flatMap_cons, List.append_eq_nil_iff]
      exact fun h => chunk.nonempty h.1

theorem httpExchange_of_failed {net : Network} {host port request : Bytes}
    (h : Failed net host port request) (hcut : ¬ CutOff net host port request) :
    httpExchange net host port request = some [] := by
  cases h with
  | connect h => exact httpExchange_of_not_connects h
  | send hconnects h => exact httpExchange_of_not_sent hconnects h
  | recv hconnects hsent h =>
      have hnone : net.chunks = [] := by
        by_contra hsome
        exact hcut ⟨hconnects, hsent, hsome, h⟩
      rw [httpExchange_of_sent hconnects hsent, received_eq_nil_iff.2 hnone]

/-- **When a failed exchange is not taken for an answer**: exactly when no error cuts the reply
off. -/
theorem honest_iff (sim : SimControl) (call : Call) (net : Network) :
    Honest sim call net ↔ ¬ CutOff net sim.host sim.port (sim.request call) := by
  constructor
  · intro h hcut
    have hempty := h.empty (.recv hcut.connects hcut.sent hcut.error)
    rw [httpExchange_of_sent hcut.connects hcut.sent] at hempty
    exact hcut.some_chunk (received_eq_nil_iff.1 (Option.some.inj hempty))
  · intro hcut
    have hanswer : ∀ net' : Network, Orderly net' sim.host sim.port (sim.request call) →
        sim.answer net' call = some (call.read net'.received) := by
      intro net' h
      rw [answer_eq, httpExchange_of_sent h.connects h.sent]
      rfl
    refine ⟨fun h => httpExchange_of_sent h.connects h.sent,
      fun h => httpExchange_of_failed h hcut, fun h => ?_, fun h net' h' hsame => ?_⟩
    · rw [answer_eq, httpExchange_of_failed h hcut, Option.map_some, read_nil]
    · rw [hanswer net h, hanswer net' h', hsame]

def localSim : SimControl := ⟨ascii "localhost", ascii "9008", ascii "YouTube"⟩

def firstPart : Chunk := ⟨ascii "HTTP/1.0 200 OK\r\n\r\nGetState returned: Act", by decide +kernel⟩

/-- A connection that breaks down behind it. -/
def brokenConnection : Network where
  getaddrinfo := fun _ _ => some [.connected]
  sends := [1024]
  chunks := [firstPart]
  ending := .error

/-- A part of the state is reported as the state. -/
theorem not_honest_brokenConnection :
    ¬ ∀ (sim : SimControl) (call : Call) (net : Network), Honest sim call net := by
  intro h
  have hfailed : Failed brokenConnection localSim.host localSim.port
      (localSim.request .getState) := by
    refine .recv ⟨_, rfl, rfl⟩ ?_ rfl
    exact sendLoop_eq_some_iff.1.1 (by decide +kernel)
  have hstate := (h localSim .getState brokenConnection).unanswered hfailed
  have hact : localSim.answer brokenConnection .getState = some (.state (ascii "Act")) := by
    decide +kernel
  rw [hact] at hstate
  revert hstate
  decide +kernel

end Sim
