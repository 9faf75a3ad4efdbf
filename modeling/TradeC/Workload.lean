import TradeC.Message
import TradeC.Work

/-! The workload generator, and its connections to the transaction servers.

    `main` reads the lines of a file, turns each into a message, and puts it into the queue of the
    thread that the user is sorted to. A thread sends the messages of its queue on its own connection,
    and waits for a reply to each. What is done under the mutex of such a queue is one step, and so is
    the `send` of a message, which one `recv` takes. A server has a connection handler for each
    connection; what that does with a message from the lookup of the user on is in `Work`. -/

namespace TradeC.Workload

def NUM_THREADS : ℕ := 50
def TRANS_NUM : ℕ := 5

/-! ### Lines -/

/-- The loop of this program's `delimSepNoCpy`: three fields at most, `count` of them stored. -/
def delimLoop (delim : Char) : CStr → CStr → ℕ → List CStr
  | [], cur, _ => [cur]
  | c :: cs, cur, count =>
    if c = delim then if count = 1 then [cur, cs] else cur :: delimLoop delim cs [] (count + 1)
    else delimLoop delim cs (cur ++ [c]) count

def delimSepNoCpy (s : CStr) (delim : Char) : List CStr :=
  match s with
  | [] => []
  | s => delimLoop delim s [] 0

/-- The value of a character of a user. -/
def charSort (c : Char) : Option ℤ :=
  if ord c > 47 ∧ ord c < 58 then some (ord c - 48)
  else if ord c > 96 ∧ ord c < 123 then some (ord c - 87)
  else if ord c > 64 ∧ ord c < 91 then some (ord c - 29)
  else none

theorem numThreads_pos : 0 < NUM_THREADS := by decide

/-- `userSort` of a string that is not NULL. -/
def userSort (userID : CStr) : Fin NUM_THREADS :=
  match userID.mapM charSort with
  | some values => ⟨(values.foldl (· + ·) 0).toNat % NUM_THREADS, Nat.mod_lt _ numThreads_pos⟩
  | none => ⟨0, numThreads_pos⟩

/-- The message to a line, sent with its NUL. -/
def message (transID : ℤ) (userCmd userID : CStr) (data : Option CStr) : CStr :=
  "WSC|".toList ++ ld transID ++ '|' :: userCmd ++ '|' :: userID ++
    (data.elim [] fun d => ',' :: d) ++ [nul]

/-- The body of the loop of `main`: the thread, and the message. There is no result where a pointer is
    used that the line does not set. -/
def readLine (op : CStr) (transID : ℤ) : Option (Fin NUM_THREADS × CStr) :=
  match delimSepNoCpy (dropEnd ' ' (dropEnd '\n' op)) ' ' with
  | _ :: comm :: _ =>
    match delimSepNoCpy comm ',' with
    | userCmd :: userID :: data =>
      some (userSort userID, message transID userCmd userID data.head?)
    | _ => none
  | _ => none

/-! ### The system -/

inductive SenderPc where
  | cdeq
  | send (comm : CStr)
  | recv
  | exited

/-- What a connection handler does next, before it looks for the user. -/
inductive ConnPc where
  | recv
  | sendRec (cmd : ClientCmd)
  | handle (cmd : ClientCmd)

/-- A thread of the generator, with its queue and its connection. To the client `quickSend` sends
    nothing but REC, so what is on its way there is only counted. -/
structure Chan where
  commList : List (Option CStr)
  sender : SenderPc
  toServer : List CStr
  toClient : ℕ
  conn : ConnPc
  buf : ConnBuf

/-- A command, as a handler takes it out of the queue of its user. -/
structure Taken where
  transID : CStr
  userCmd : CStr
  comm : Option CStr
  deriving DecidableEq

/-- The threads of a server: the handler of each connection, and others. -/
abbrev Thread (κ : Type*) := Fin NUM_THREADS ⊕ κ

structure State (κ : Type*) where
  wl : List CStr
  transID : ℤ
  -- the thread that main has ended last, and joins
  closing : ℕ
  chan : Fin NUM_THREADS → Chan
  server : ℕ → Work.State (Thread κ)
  userID : ℕ → Work.UserIx → Option UserID
  -- what is only recorded: the commands of each user that handlers have taken
  taken : UserID → List Taken

/-- A step of `main`, of a sender, of a connection handler that has a message or waits for one, or of a
    thread of a server past that. -/
inductive Event (κ : Type*) where
  | main
  | sender (k : Fin NUM_THREADS)
  | conn (k : Fin NUM_THREADS)
  | server (j : ℕ) (e : Work.Event (Thread κ))

/-- The server that a thread is connected to. -/
def serverOf (k : Fin NUM_THREADS) : ℕ := k % TRANS_NUM

section
variable {κ : Type*} [DecidableEq κ]

namespace State
variable (s : State κ)

def setChan (k : Fin NUM_THREADS) (c : Chan) : State κ :=
  { s with chan := Function.update s.chan k c }

def setServer (j : ℕ) (v : Work.State (Thread κ)) : State κ :=
  { s with server := Function.update s.server j v }

def setUserID (j : ℕ) (ix : Work.UserIx) (u : UserID) : State κ :=
  let ids := Function.update (s.userID j) ix (some u)
  { s with userID := Function.update s.userID j ids }

/-- `getUser`. -/
def getUser (j : ℕ) (u : UserID) : Option Work.UserIx :=
  (List.range (s.server j).fresh).find? fun ix => (s.server j).uTree ix && s.userID j ix = some u

/-- The IDs of the users once `addUser` has made the user that `getUser` does not find. -/
def addUser (j : ℕ) (u : UserID) : State κ :=
  match s.getUser j u with
  | some _ => s
  | none => s.setUserID j (s.server j).fresh u

/-- The command handlers' `cdeq` is recorded. -/
def record (j : ℕ) (i : Thread κ) : State κ :=
  match (s.server j).pc i with
  | .deqTake ix =>
    match ((s.server j).user ix).commList.element, s.userID j ix with
    | some el, some u => { s with
        taken := Function.update s.taken u (s.taken u ++ [⟨el.transID, el.userCmd, el.comm⟩]) }
    | _, _ => s
  | _ => s

end State

def mainStep (s : State κ) : Option (State κ) :=
  match s.wl with
  | op :: wl => (readLine op s.transID).map fun (k, m) =>
    { s.setChan k { s.chan k with commList := (s.chan k).commList ++ [some m] } with
      wl, transID := wrap64 (s.transID + 1) }
  -- cenq(cList[i], NULL, 0), after the join of the one before
  | [] =>
    if h : s.closing < NUM_THREADS then
      if ∀ k : Fin NUM_THREADS, k.val + 1 = s.closing → (s.chan k).sender matches .exited then
        some { s.setChan ⟨s.closing, h⟩
          { s.chan ⟨s.closing, h⟩ with commList := (s.chan ⟨s.closing, h⟩).commList ++ [none] } with
          closing := s.closing + 1 }
      else none
    else none

/-- `comm_handler`. -/
def senderStep (s : State κ) (k : Fin NUM_THREADS) : Option (State κ) :=
  let c := s.chan k
  match c.sender with
  | .cdeq =>
    match c.commList with
    | [] => none
    | some m :: rest => some (s.setChan k { c with commList := rest, sender := .send m })
    | none :: rest => some (s.setChan k { c with commList := rest, sender := .exited })
  | .send m => some (s.setChan k { c with toServer := c.toServer ++ [m], sender := .recv })
  | .recv =>
    if c.toClient = 0 then none
    else some (s.setChan k { c with toClient := c.toClient - 1, sender := .cdeq })
  | .exited => none

/-- `connection_handler`, up to the lookup of the user. -/
def connStep (s : State κ) (k : Fin NUM_THREADS) : Option (State κ) :=
  let c := s.chan k
  let j := serverOf k
  match c.conn with
  | .recv =>
    match (s.server j).pc (.inl k), c.toServer with
    | .recv, bytes :: rest => (c.buf.receive bytes).map fun (buf, cmd) =>
      s.setChan k { c with toServer := rest, buf, conn := .sendRec cmd }
    | _, _ => none
  | .sendRec cmd => some (s.setChan k { c with toClient := c.toClient + 1, conn := .handle cmd })
  | .handle (.command transID userCmd userID comm) =>
    let e := ⟨.inl k, s.getUser j userID, ⟨transID, userCmd, comm, k⟩⟩
    (Work.step (s.server j) e).map fun v =>
      ((s.addUser j userID).setServer j v).setChan k { c with conn := .recv }
  | .handle _ => some (s.setChan k { c with conn := .recv })

/-- A thread of a server that is not a connection handler between two messages. -/
def serverStep (s : State κ) (j : ℕ) (e : Work.Event (Thread κ)) : Option (State κ) :=
  match (s.server j).pc e.thread with
  | .recv => none
  | _ => (Work.step (s.server j) e).map ((s.record j e.thread).setServer j)

def step (s : State κ) : Event κ → Option (State κ)
  | .main => mainStep s
  | .sender k => senderStep s k
  | .conn k => connStep s k
  | .server j e => serverStep s j e

/-- The threads of a server besides the connection handlers. -/
inductive Worker where
  | command
  | trigger

def Worker.role : Worker → Work.Role
  | command => .command
  | trigger => .trigger

def init (file : List CStr) (garbage : Fin NUM_THREADS → List Char) (worker : κ → Worker) : State κ where
  wl := file
  transID := 1
  closing := 0
  chan k := ⟨[], .cdeq, [], 0, .recv, .init (garbage k)⟩
  server _ := Work.init fun i => i.elim (fun _ => .connection) fun x => (worker x).role
  userID _ _ := none
  taken _ := []

end

end TradeC.Workload
