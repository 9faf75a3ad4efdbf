import TradeC.Message
import TradeC.Lib.Run
import Mathlib.Logic.Function.Basic

/-! The rounds of `quote_handler` of the load balancer, with its threads `get_quote_thread`.

    In a round the handler lets all threads ask a quote server, and takes the reply of the first that
    comes back. `quoteStart` starts the threads, `quoteFin` tells that one of them has a reply, and the
    mutex `busy` of a thread's reply is held by the thread from the start of a round until it has seen
    that `quoteFin` is not 0. A step is one operation on a semaphore, a mutex or a flag, or one call of
    the network. -/

namespace TradeC.LoadBalancer
open Run

def maxRequests : ℕ := 10
def timeOut : ℕ := 30000

/-- A `quote_queue_element`. -/
structure Request where
  request : CStr
  quoteAddress : ℕ
  deriving DecidableEq

/-- A `quote_reply`: the string in the buffer, and, only recorded, the round and the request of the send
    that it was received for. -/
structure Reply where
  reply : CStr
  sent : Option (ℕ × Request)

/-- The slot of the cache, with the reply whose fields it has, and the round that it was stored in. -/
structure Slot where
  reply : Reply
  round : ℕ

/-- Where `quote_handler` is. -/
inductive HPc where
  -- a thread is created and has locked its mutex; the handler locks it after it
  | create (i : ℕ)
  | waitInit (i : ℕ)
  | lockInit (i : ℕ)
  | takeFin
  -- a round
  | deq
  | setRequest (x : Request)
  | unlock (i : ℕ)
  | post (i : ℕ)
  | poll
  | probe (i : ℕ)
  | probeUnlock (i : ℕ)
  | setGo
  | waitFin
  | readID
  | store (serverReply : ℕ)
  | collect (i : ℕ)
  | drain (i : ℕ)
  | clear
  -- break
  | ended

/-- Where a `get_quote_thread` is; `sent` is the request on its socket, with its round. -/
inductive TPc where
  | off
  | start
  | setInit
  | top
  | release
  | park
  | relock
  | spin
  | connect
  | send
  | recv (count : ℕ) (sent : ℕ × Request)
  | check (count : ℕ) (sent : ℕ × Request)
  | report
  | setID
  | postFin
  | unlockReturned
  deriving DecidableEq

structure State where
  handler : HPc
  pc : ℕ → TPc
  busy : ℕ → Bool
  quoteStart : ℕ
  quoteFin : ℕ
  threadReturned : Bool
  threadReturnedID : ℕ
  init : Bool
  go : Bool
  request : Option Request
  reply : ℕ → Reply
  cache : ℕ → Option Slot
  -- what is only recorded: the requests taken from the queue, one a round; the sends, with their rounds
  taken : List Request
  sends : List (ℕ × Request)

/-- A step of the handler, with the request that is in the queue; or of a thread, with what the network
    gives: `none` where the call fails, otherwise the bytes, which only `recv` has. -/
inductive Event where
  | handler (x : Request)
  | thread (t : ℕ) (net : Option (List Char))

namespace State
variable (s : State)

def goto (t : ℕ) (p : TPc) : State := { s with pc := Function.update s.pc t p }

def setBusy (t : ℕ) (b : Bool) : State := { s with busy := Function.update s.busy t b }

/-- What is in the buffer after `recv`. Of a reply of no bytes the source looks at `rep[-1]`, and writes
    the NUL there if it is one, or a newline; `before` is that byte. -/
def setReply (before : Char) (t : ℕ) (sent : ℕ × Request) (bytes : List Char) : State :=
  let rep :=
    if bytes = [] then
      if before = nul ∨ before = '\n' then s.reply t else { s.reply t with reply := [] }
    else ⟨(dropEnd '\n' (dropEnd nul bytes)).takeWhile (· ≠ nul), some sent⟩
  { s with reply := Function.update s.reply t rep }

end State

variable (n : ℕ) (before : Char)

def handlerStep (s : State) (x : Request) : Option State :=
  match s.handler with
  | .create i =>
    if i < n then
      some { s with pc := Function.update s.pc i .start, init := false, handler := .waitInit i }
    else some { s with handler := .takeFin }
  -- while(!init) usleep(1)
  | .waitInit i => some (if s.init then { s with handler := .lockInit i } else s)
  | .lockInit i =>
    if s.busy i then none else some { s.setBusy i true with handler := .create (i + 1) }
  | .takeFin =>
    if s.quoteFin = 0 then none else some { s with quoteFin := s.quoteFin - 1, handler := .deq }
  | .deq => some { s with taken := s.taken ++ [x], handler := .setRequest x }
  | .setRequest x => some { s with request := some x, handler := .unlock 0 }
  | .unlock i =>
    if i < n then some { s.setBusy i false with handler := .unlock (i + 1) }
    else some { s with handler := .post 0 }
  | .post i =>
    if i < n then some { s with quoteStart := s.quoteStart + 1, handler := .post (i + 1) }
    else some { s with handler := .poll }
  -- while(semVal)
  | .poll => some (if s.quoteFin = 0 then { s with handler := .probe 0 } else s)
  -- while(!pthread_mutex_trylock(..))
  | .probe i =>
    if i < n then
      if s.busy i then some { s with handler := .probe (i + 1) }
      else some { s.setBusy i true with handler := .probeUnlock i }
    else some { s with handler := .setGo }
  | .probeUnlock i => some { s.setBusy i false with handler := .probe i }
  | .setGo => some { s with go := true, handler := .waitFin }
  | .waitFin =>
    if s.quoteFin = 0 then none else some { s with quoteFin := s.quoteFin - 1, handler := .readID }
  | .readID => some { s with handler := .store s.threadReturnedID }
  -- newQuote has room for five fields, and pointers that fewer do not set are used
  | .store serverReply =>
    let reply := s.reply serverReply
    let newQuote := delimSepNoCpy (some reply.reply) ','
    if newQuote = [] then some { s with handler := .ended }
    else if newQuote.length ≠ 5 then none
    else s.request.map fun x => { s with
      cache := Function.update s.cache x.quoteAddress (some ⟨reply, s.taken.length⟩)
      handler := .collect 0 }
  | .collect i =>
    if i < n then
      if s.busy i then none else some { s.setBusy i true with handler := .collect (i + 1) }
    else some { s with handler := .drain 0 }
  -- sem_trywait
  | .drain i =>
    if i < n then some { s with quoteFin := s.quoteFin - 1, handler := .drain (i + 1) }
    else some { s with handler := .clear }
  | .clear => some { s with go := false, handler := .deq }
  | .ended => none

def threadStep (s : State) (t : ℕ) (net : Option (List Char)) : Option State :=
  match s.pc t with
  | .off => none
  | .start => if s.busy t then none else some ((s.setBusy t true).goto t .setInit)
  | .setInit => some ({ s with init := true }.goto t .top)
  -- if(semVal)
  | .top => some (s.goto t (if s.quoteFin = 0 then .connect else .release))
  | .release => some ((s.setBusy t false).goto t .park)
  | .park =>
    if s.quoteStart = 0 then none
    else some ({ s with quoteStart := s.quoteStart - 1 }.goto t .relock)
  | .relock => if s.busy t then none else some ((s.setBusy t true).goto t .spin)
  -- while(!*go) usleep(1)
  | .spin => some (if s.go then s.goto t .connect else s)
  -- getaddrinfo, socket, connect and select
  | .connect => some (s.goto t (if net.isSome then .send else .top))
  | .send =>
    match net with
    | none => some (s.goto t .top)
    | some _ => s.request.map fun x =>
      { s with sends := s.sends ++ [(s.taken.length, x)] }.goto t (.recv 0 (s.taken.length, x))
  -- at most 200 bytes; the NUL behind so many would be written behind the buffer
  | .recv count sent =>
    match net with
    | none => some (s.goto t (.check count sent))
    | some bytes =>
      if 200 < bytes.length ∨ (dropEnd '\n' (dropEnd nul bytes)).length = 200 then none
      else some ((s.setReply before t sent bytes).goto t .report)
  | .check count sent =>
    some (s.goto t (if s.quoteFin = 0 ∧ count < timeOut then .recv (count + 1) sent else .top))
  | .report =>
    some (if s.threadReturned then s.goto t .top else { s with threadReturned := true }.goto t .setID)
  | .setID => some ({ s with threadReturnedID := t }.goto t .postFin)
  | .postFin => some ({ s with quoteFin := s.quoteFin + 1 }.goto t .unlockReturned)
  | .unlockReturned => some ({ s with threadReturned := false }.goto t .top)

def step (s : State) : Event → Option State
  | .handler x => handlerStep n s x
  | .thread t net => threadStep before s t net

/-- `quoteFin` starts at 1. -/
def initial : State where
  handler := .create 0
  pc _ := .off
  busy _ := false
  quoteStart := 0
  quoteFin := 1
  threadReturned := false
  threadReturnedID := 0
  init := false
  go := false
  request := none
  reply _ := ⟨[], none⟩
  cache _ := none
  taken := []
  sends := []

end TradeC.LoadBalancer
