import TradeC.Message
import TradeC.Replies
import TradeC.System
import TradeC.Lib.Run

/-! The sockets of transServerWeb: what is received on them, and what is sent.

    A step is one socket accepted, one message received by a connection handler, one command executed, or
    one step of the quotes and the triggers. `quickSend` sends a text only if it is `REC`, and no reply is:
    every reply stops there, and no socket is closed after one. -/

set_option linter.unusedSectionVars false

namespace TradeC.Web
open Run

/-- What is done to a socket. -/
inductive Out where
  | send (sock : ℕ) (text : CStr)
  | close (sock : ℕ)

def Out.sock : Out → ℕ
  | .send sock _ => sock
  | .close sock => sock

/-- `comm_queue_element`. -/
structure Queued where
  sock : ℕ
  transID : CStr
  userCmd : CStr
  comm : Option CStr

/-- `κ` are the connection handlers. -/
structure State (κ : Type*) where
  server : Server
  /-- `uList->num`. -/
  num : ℕ
  accepted : ℕ
  webSockList : List ℕ
  buf : κ → ConnBuf
  commList : UserID → List Queued
  -- what is only recorded: the message of each socket, and what is done to the sockets
  received : ℕ → Option (List Char)
  log : List Out

inductive Event (κ : Type*) where
  | accept
  | receive (k : κ) (bytes : List Char)
  | command (u : UserID) (now : ℤ) (quote : Quote)
  | quote (stockID : StockID) (q : Quote)
  | examine (t : TrigID) (quotePrice now : ℤ)

/-- A text that starts differently is not `REC`. -/
theorem ne_rec {c : Char} {str : CStr} (hc : c ≠ 'R') : c :: str ≠ "REC".toList := fun h =>
  hc (List.cons.inj h).1

theorem text_ne_rec (transID userCmd : CStr) (reply : Reply) :
    reply.text transID userCmd ≠ "REC".toList := by
  cases reply <;> exact ne_rec (c := 'W') (by decide)

theorem usrText_ne_rec (found : Bool) (num : ℕ) (userID : CStr) :
    usrText found num userID ≠ "REC".toList := by
  cases found
  · exact ne_rec (c := 'N') (by decide)
  · exact ne_rec (c := 'H') (by decide)

section
variable {κ : Type*} [DecidableEq κ]

namespace State
variable (s : State κ)

def quickSend (sock : ℕ) (str : CStr) : State κ :=
  if str = "REC".toList then { s with log := s.log ++ [.send sock str] } else s

def close (sock : ℕ) : State κ := { s with log := s.log ++ [.close sock] }

/-- `getUser` for any string. -/
def found (userID : CStr) : Bool :=
  if h : validUserID userID = true then (s.server.user ⟨userID, h⟩).isSome else false

/-- `addUser` where `getUser` finds nobody, and `cenq`. -/
def cenq (w : ℤ → ℤ) (u : UserID) (c : Queued) : State κ :=
  let s := if (s.server.user u).isSome then s
    else { s with server := addUser w s.server u, num := s.num + 1 }
  { s with commList := Function.update s.commList u (s.commList u ++ [c]) }

/-- The rest of the body of `connection_handler`, for one message. -/
def handle (w : ℤ → ℤ) (sock : ℕ) : ClientCmd → State κ
  | .badLength => s.close sock
  | .ignored => s
  | .usr userID => s.quickSend sock (usrText (s.found userID) s.num userID)
  | .dumplog transID _ => s.quickSend sock (Reply.text transID "DUMPLOG".toList (.succ []))
  | .badUser transID userCmd => s.quickSend sock (Reply.text transID userCmd (.fail (-18) []))
  | .command transID userCmd userID comm => s.cenq w userID ⟨sock, transID, userCmd, comm⟩

end State

def step (w : ℤ → ℤ) (s : State κ) : Event κ → Option (State κ)
  | .accept =>
    some { s with accepted := s.accepted + 1, webSockList := s.webSockList ++ [s.accepted] }
  -- recv gives at most 200 bytes, and none where it fails
  | .receive k bytes =>
    match s.webSockList with
    | [] => none
    | sock :: rest =>
      let s := { s with webSockList := rest }
      if bytes = [] then some (s.close sock)
      else if 200 < bytes.length then none
      else ((s.buf k).receive bytes).map fun (b, cmd) =>
        { s with
          buf := Function.update s.buf k b
          received := Function.update s.received sock (some bytes) }.handle w sock cmd
  | .command u now quote =>
    match s.commList u with
    | [] => none
    | c :: rest =>
      (commandHandler w s.server ⟨c.transID, c.userCmd, u, now, quote⟩ c.comm).map
        fun (server, reply) =>
          { s with server, commList := Function.update s.commList u rest }.quickSend c.sock
            (reply.text c.transID c.userCmd)
  | .quote stockID q => (TradeC.step w s.server (.quote stockID q)).map ({ s with server := · })
  | .examine t quotePrice now =>
    (TradeC.step w s.server (.examine t quotePrice now)).map ({ s with server := · })

def init (garbage : List Char) : State κ where
  server := Server.init
  num := 0
  accepted := 0
  webSockList := []
  buf _ := .init garbage
  commList _ := []
  received _ := none
  log := []

/-! ### The answers -/

/-- The fields of a message. -/
def fields (bytes : List Char) : List CStr :=
  delimSepNoCpy (some ((trim bytes).takeWhile (· ≠ nul))) '|'

/-- Four fields, the first of them WSC, or a USR query. -/
def WellFormed (bytes : List Char) : Prop :=
  match fields bytes with
  | [internalCmd, _, _, _] => internalCmd = "WSC".toList
  | [internalCmd, _] => internalCmd = "USR".toList
  | _ => False

instance (bytes : List Char) : Decidable (WellFormed bytes) :=
  match h : fields bytes with
  | [internalCmd, _, _, _] => decidable_of_iff (internalCmd = "WSC".toList) (by rw [WellFormed, h])
  | [internalCmd, _] => decidable_of_iff (internalCmd = "USR".toList) (by rw [WellFormed, h])
  | [] | [_] | [_, _, _] | _ :: _ :: _ :: _ :: _ :: _ => .isFalse (by rw [WellFormed, h]; exact id)

/-- A reply to a message: with its transaction number, or its user. -/
def IsReply (bytes : List Char) (text : CStr) : Prop :=
  ∃ id ∈ (fields bytes)[1]?, ("WSR|".toList ++ id ++ ['|']).isPrefixOf text ∨
    text = usrText true 0 id ∨ ∃ num, text = usrText false num id

/-- One reply has been sent on the socket of the message, and then it has been closed. -/
def Answered (s : State κ) (sock : ℕ) (bytes : List Char) : Prop :=
  ∃ text, s.log.filter (·.sock = sock) = [.send sock text, .close sock] ∧ IsReply bytes text

/-- Nothing is sent. -/
def Silent (s : State κ) : Prop := ∀ o ∈ s.log, ∃ sock, o = .close sock

variable {w : ℤ → ℤ} {s s' : State κ}

theorem Silent.of_log (h : Silent s) (hlog : s'.log = s.log) : Silent s' := by
  unfold Silent
  rw [hlog]
  exact h

theorem Silent.quickSend (h : Silent s) {sock : ℕ} {str : CStr} (hstr : str ≠ "REC".toList) :
    Silent (s.quickSend sock str) := by
  rw [State.quickSend, if_neg hstr]
  exact h

theorem Silent.close (h : Silent s) (sock : ℕ) : Silent (s.close sock) := by
  intro o ho
  rcases List.mem_append.mp ho with ho | ho
  · exact h o ho
  · exact ⟨sock, List.mem_singleton.mp ho⟩

theorem Silent.handle (h : Silent s) (sock : ℕ) (cmd : ClientCmd) : Silent (s.handle w sock cmd) := by
  cases cmd with
  | badLength => exact h.close sock
  | ignored => exact h
  | usr userID => exact h.quickSend (usrText_ne_rec _ _ _)
  | dumplog transID file => exact h.quickSend (text_ne_rec _ _ _)
  | badUser transID userCmd => exact h.quickSend (text_ne_rec _ _ _)
  | command transID userCmd userID comm =>
    refine h.of_log ?_
    simp only [State.handle, State.cenq]
    split_ifs <;> rfl

theorem Silent.step (h : Silent s) {e : Event κ} (hstep : step w s e = some s') : Silent s' := by
  cases e with
  | accept =>
    cases hstep
    exact h
  | receive k bytes =>
    simp only [Web.step] at hstep
    split at hstep
    · cases hstep
    · split_ifs at hstep
      · cases hstep
        exact (h.of_log rfl).close _
      · obtain ⟨⟨b, cmd⟩, -, rfl⟩ := Option.map_eq_some_iff.mp hstep
        refine Silent.handle ?_ _ _
        exact h.of_log rfl
  | command u now quote =>
    simp only [Web.step] at hstep
    split at hstep
    · cases hstep
    · obtain ⟨⟨server, reply⟩, -, rfl⟩ := Option.map_eq_some_iff.mp hstep
      refine Silent.quickSend ?_ (text_ne_rec _ _ _)
      exact h.of_log rfl
  | quote stockID q =>
    simp only [Web.step] at hstep
    obtain ⟨server, -, rfl⟩ := Option.map_eq_some_iff.mp hstep
    exact h
  | examine t quotePrice now =>
    simp only [Web.step] at hstep
    obtain ⟨server, -, rfl⟩ := Option.map_eq_some_iff.mp hstep
    exact h

/-- In no run is a well-formed message answered. -/
theorem never_answered {garbage : List Char} {es : List (Event κ)} {sock : ℕ} {bytes : List Char}
    (h : exec (step w) (init garbage) es = some s) (_hreceived : s.received sock = some bytes)
    (_hformed : WellFormed bytes) : ¬ Answered s sock bytes := by
  have hstart : Silent (init garbage : State κ) := fun o ho => by cases ho
  have hsilent := exec_inv (fun _ _ _ hi hs => Silent.step hi hs) es _ s hstart h
  rintro ⟨text, hlog, -⟩
  have hmem : Out.send sock text ∈ s.log.filter (·.sock = sock) := by simp [hlog]
  obtain ⟨sock', hclose⟩ := hsilent _ (List.mem_filter.mp hmem).1
  cases hclose

end

/-! ### A request to which there is no reply -/

/-- The request of add.php for 10.00. -/
def addTen : List Char := "WSC|1|ADD|aaaaaaaaaa,10.00\r\n".toList

def addTenRun : List (Event Unit) :=
  [.accept, .receive () addTen, .command aUser 0 ⟨0, 0⟩]

/-- The command is executed, nothing is queued any more, and its socket is neither written nor
    closed. -/
theorem addTen_unanswered :
    ∃ s, exec (step id) (init []) addTenRun = some s ∧ s.received 0 = some addTen ∧
      WellFormed addTen ∧ s.commList aUser = [] ∧ (s.server.user aUser).map (·.balance) = some 1000 ∧
      ¬ Answered s 0 addTen := by
  refine ⟨_, rfl, rfl, by decide, by decide +kernel, by decide +kernel, ?_⟩
  rintro ⟨text, hlog, -⟩
  cases hlog

theorem never_answered_addTen :
    (∃ s, exec (step id) (init []) addTenRun = some s ∧ s.received 0 = some addTen) ∧
      ∀ s, exec (step id) (init []) addTenRun = some s → ¬ Answered s 0 addTen := by
  refine ⟨⟨_, rfl, rfl⟩, fun s h => ?_⟩
  have hs := h
  cases hs
  exact never_answered h rfl (by decide)

end TradeC.Web
