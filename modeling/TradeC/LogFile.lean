import TradeC.Replies
import TradeC.Lib.Run

/-! The file that `log_handler` of the log server writes.

    A line adds an element to a tree. A flush writes the rendering of the tree without its first five
    characters over the last seven of the file, and starts a new tree; it happens for a DUMPLOG with a path,
    once no user command has come for three seconds, and when more than `0x10000` lines have been counted. -/

namespace TradeC.LogServer
open Run

/-! ### Lines -/

/-- A child of `logRoot`, with the names and the texts of its own children. -/
structure Element where
  name : CStr
  children : List (CStr × CStr)
  deriving DecidableEq

/-- The children that are always added, then those that are unless their string starts with a blank. There is
    no result where a pointer is read that the line does not set: those of earlier lines are freed. -/
def element (name : String) (always optional : List String) (logSep : List CStr) : Option Element :=
  let values := logSep.drop 1
  if values.length < always.length + optional.length then none
  else
    some ⟨name.toList, (always.map String.toList).zip values ++
      ((optional.map String.toList).zip (values.drop always.length)).filter
        fun c => c.2.head? ≠ some ' '⟩

def stamp : List String := ["timestamp", "server", "transactionNum"]
def optional : List String := ["username", "stockSymbol", "filename", "funds"]

def userCommand : List CStr → Option Element :=
  element "userCommand" (stamp ++ ["command"]) optional

def quoteServer : List CStr → Option Element :=
  element "quoteServer"
    (stamp ++ ["price", "stockSymbol", "username", "quoteServerTime", "cryptokey"]) []

def accountTransaction : List CStr → Option Element :=
  element "accountTransaction" (stamp ++ ["action", "username", "funds"]) []

def systemEvent : List CStr → Option Element :=
  element "systemEvent" (stamp ++ ["command"]) optional

def errorEvent : List CStr → Option Element :=
  element "errorEvent" (stamp ++ ["command"]) (optional ++ ["errorMessage"])

def debugEvent : List CStr → Option Element :=
  element "debugEvent" (stamp ++ ["command"]) (optional ++ ["debugMessage"])

/-- What the handler makes of a line. -/
inductive LogLine where
  | empty
  | userCmd (e : Element)
  | event (e : Element)
  | dump (file : CStr)
  | userDump (userID file : CStr)
  | unknown

/-- `logSep` has room for ten fields. -/
def logLine (logSep : List CStr) : Option LogLine :=
  if 10 < logSep.length then none
  else
    match logSep with
    | [] => some .empty
    | type :: args =>
      if type = "userCmd".toList then (userCommand logSep).map .userCmd
      else if type = "quote".toList then (quoteServer logSep).map .event
      else if type = "accTrans".toList then (accountTransaction logSep).map .event
      else if type = "system".toList then (systemEvent logSep).map .event
      else if type = "error".toList then (errorEvent logSep).map .event
      else if type = "debug".toList then (debugEvent logSep).map .event
      else if type = "DUMPLOG".toList then
        match args with
        | [] => none
        | arg :: args =>
          if arg.head? = some '.' ∨ arg.head? = some '/' then some (.dump arg)
          else args.head?.map (LogLine.userDump arg)
      else some .unknown

def parse (str : CStr) : Option LogLine := logLine (delimSepNoCpy (some str) ',')

/-- The element that a line adds. -/
def lineElements (str : CStr) : List Element :=
  match parse str with
  | some (.userCmd e) => [e]
  | some (.event e) => [e]
  | _ => []

/-! ### The handler -/

def logStart : CStr := "<?xml version=\"1.0\" encoding=\"utf-8\"?><log>".toList
def logEnd : CStr := "</log>\n".toList

/-- The size that `mxmlSaveString` is given. -/
def bufSize : ℕ := 0x1000000

structure State where
  queue : List CStr
  lastUserCmd : ℤ
  count : ℕ
  /-- The children of `logRoot`. -/
  tree : List Element
  /-- What is in `logOut`. -/
  file : CStr
  /-- Whether the handler is at `if(count > 0x10000)`. -/
  atCheck : Bool
  -- what is only recorded: the lines of the connections, and the trees that were flushed
  arrived : List CStr
  flushed : List (List Element)

/-- A connection handler puts a line into the queue; or the log handler goes on, at `now`, with what `fopen`
    does. -/
inductive Event where
  | lenq (str : CStr)
  | log (now : ℤ) (opens : Bool)

/-- What the renderer writes is a parameter: between `<log>` and `</log>` of a tree, and for one element,
    without the newline. So is whether a name is one of `logOut`. -/
structure Env where
  body : List Element → CStr
  saved : Element → CStr
  isLogOut : CStr → Bool

variable (env : Env)

/-- `mxmlSaveString` of `logRoot`, before it is cut. -/
def rendering (tree : List Element) : CStr :=
  if tree = [] then "<log />\n".toList else "<log>".toList ++ env.body tree ++ logEnd

/-- `fputs` at seven characters before the end. -/
def overwrite (file text : CStr) : CStr :=
  file.take (file.length - 7) ++ text ++ file.drop (file.length - 7 + text.length)

/-- `outStr + 5`, where at most `bufSize - 1` characters of the rendering are in the buffer. -/
def written (tree : List Element) : CStr := ((rendering env tree).take (bufSize - 1)).drop 5

def flush (s : State) : State :=
  { s with
    file := overwrite s.file (written env s.tree)
    tree := []
    count := 0
    flushed := s.flushed ++ [s.tree] }

/-- The elements of a user. -/
def userElements (tree : List Element) (userID : CStr) : List Element :=
  tree.filter fun e => ("username".toList, userID) ∈ e.children

/-- What is written for a user. -/
def userText (tree : List Element) (userID : CStr) : CStr :=
  logStart ++ (userElements tree userID).flatMap env.saved ++ logEnd

/-- The elements are saved with room for 5000 bytes each, in a buffer of one more than `bufSize`. -/
def UserFits (tree : List Element) (userID : CStr) : Prop :=
  (∀ e ∈ userElements tree userID, (env.saved e).length + 1 < 5000) ∧
    (userText env tree userID).length ≤ bufSize

instance (tree : List Element) (userID : CStr) : Decidable (UserFits env tree userID) :=
  inferInstanceAs (Decidable (_ ∧ _))

/-- A line, taken from the queue; no result where a string is written behind its buffer. -/
def take (s : State) (now : ℤ) (opens : Bool) : LogLine → Option State
  | .empty => some s
  | .userCmd e => some { s with
      tree := s.tree ++ [e], lastUserCmd := now, count := s.count + 1, atCheck := true }
  | .event e => some { s with tree := s.tree ++ [e], count := s.count + 1, atCheck := true }
  | .unknown => some { s with count := s.count + 1, atCheck := true }
  | .dump file =>
    if now - s.lastUserCmd < 3000 then
      let tmpStr := "DUMPLOG,".toList ++ file
      if 500 ≤ tmpStr.length then none else some { s with queue := s.queue ++ [tmpStr] }
    else if opens then some { flush env s with atCheck := true }
    else some { s with count := s.count + 1, atCheck := true }
  | .userDump userID file =>
    if ¬ opens then some { s with count := s.count + 1, atCheck := true }
    else if ¬ UserFits env s.tree userID then none
    else some { s with
      file := if env.isLogOut file then userText env s.tree userID else s.file
      count := s.count + 1
      atCheck := true }

/-- The check after a line. -/
def check (s : State) (opens : Bool) : State :=
  let s := { s with atCheck := false }
  if 0x10000 < s.count ∧ opens then flush env s else s

def step (s : State) : Event → Option State
  | .lenq str => some { s with queue := s.queue ++ [str], arrived := s.arrived ++ [str] }
  | .log now opens =>
    if s.atCheck then some (check env s opens)
    else
      match s.queue with
      | [] => some s
      | str :: queue => (parse str).bind (take env { s with queue := queue } now opens)

def initial (now : ℤ) : State where
  queue := []
  lastUserCmd := now
  count := 0
  tree := []
  file := logStart ++ logEnd
  atCheck := false
  arrived := []
  flushed := []

/-- What a run has flushed, as text. -/
def flushedText (flushed : List (List Element)) : CStr :=
  flushed.flatMap fun tree => if tree = [] then [] else env.body tree

/-- The file has the elements flushed so far and is closed, and they are the first that have arrived. -/
structure Complete (s : State) : Prop where
  file : s.file = logStart ++ flushedText env s.flushed ++ logEnd
  arrived : s.flushed.flatten ++ s.tree ++ s.queue.flatMap lineElements =
    s.arrived.flatMap lineElements

/-- Each element that has arrived is flushed, in the tree or still in the queue, in that order. -/
def Arrived (s : State) : Prop :=
  s.flushed.flatten ++ s.tree ++ s.queue.flatMap lineElements = s.arrived.flatMap lineElements

/-- There is something to flush, and the buffer holds its rendering. -/
def CanFlush (s : State) : Prop := s.tree ≠ [] ∧ (rendering env s.tree).length < bufSize

/-- The line has the fields it needs; its flush can be made; no user's log is written to `logOut`. -/
def LineOk (s : State) (now : ℤ) (opens : Bool) : Option LogLine → Prop
  | none => False
  | some .empty => True
  | some (.userCmd _) => True
  | some (.event _) => True
  | some .unknown => True
  | some (.dump file) =>
    if now - s.lastUserCmd < 3000 then file.length < 492 else opens → CanFlush env s
  | some (.userDump userID file) => opens → UserFits env s.tree userID ∧ env.isLogOut file = false

def Ok (s : State) : Event → Prop
  | .lenq _ => True
  | .log now opens =>
    if s.atCheck then 0x10000 < s.count → opens → CanFlush env s
    else ∀ str ∈ s.queue.head?, LineOk env s now opens (parse str)

instance (s : State) : Decidable (CanFlush env s) := inferInstanceAs (Decidable (_ ∧ _))

instance decLineOk (s : State) (now : ℤ) (opens : Bool) : ∀ l, Decidable (LineOk env s now opens l)
  | none => .isFalse id
  | some .empty => .isTrue trivial
  | some (.userCmd _) => .isTrue trivial
  | some (.event _) => .isTrue trivial
  | some .unknown => .isTrue trivial
  | some (.dump _) => inferInstanceAs (Decidable (ite _ _ _))
  | some (.userDump _ _) => inferInstanceAs (Decidable (_ → _))

instance decOk (s : State) : ∀ e, Decidable (Ok env s e)
  | .lenq _ => .isTrue trivial
  | .log _ _ => inferInstanceAs (Decidable (ite _ _ _))

/-! ### A flush -/

section Flush
variable {env}

theorem overwrite_end (file text : CStr) :
    overwrite (file ++ logEnd) text = file ++ (text ++ logEnd.drop text.length) := by
  have hend : (file ++ logEnd).length - 7 = file.length := by
    rw [List.length_append, show logEnd.length = 7 from rfl, Nat.add_sub_cancel]
  rw [overwrite, hend, List.take_left, List.append_assoc, List.drop_append,
    List.drop_eq_nil_of_le (Nat.le_add_right _ _), Nat.add_sub_cancel_left, List.nil_append]

theorem flushedText_concat (flushed : List (List Element)) (tree : List Element) :
    flushedText env (flushed ++ [tree]) =
      flushedText env flushed ++ if tree = [] then [] else env.body tree := by
  rw [flushedText, flushedText, List.flatMap_append, List.flatMap_singleton]

theorem arrived_flush {s : State} (h : Arrived s) : Arrived (flush env s) := by
  unfold Arrived at h ⊢
  simp only [flush]
  rw [List.flatten_append, List.flatten_singleton, List.append_nil]
  exact h

/-- What a flush comes to where the file is complete: what is written has to be the text of the tree. -/
theorem complete_flush_iff {s : State} (h : Complete env s) : Complete env (flush env s) ↔
    written env s.tree ++ logEnd.drop (written env s.tree).length =
      (if s.tree = [] then [] else env.body s.tree) ++ logEnd := by
  have hfile : (flush env s).file = logStart ++ flushedText env (flush env s).flushed ++ logEnd ↔
      written env s.tree ++ logEnd.drop (written env s.tree).length =
        (if s.tree = [] then [] else env.body s.tree) ++ logEnd := by
    simp only [flush]
    rw [h.file, overwrite_end, flushedText_concat]
    simp only [List.append_assoc, List.append_cancel_left_eq]
  rw [← hfile]
  exact ⟨fun h' => h'.file, fun h' => ⟨h', arrived_flush h.arrived⟩⟩

/-- A flush leaves the file complete exactly if there is something to flush and the buffer holds it. -/
theorem complete_flush {s : State} (h : Complete env s) :
    Complete env (flush env s) ↔ CanFlush env s := by
  rw [complete_flush_iff h, CanFlush, written, rendering]
  by_cases hne : s.tree = []
  · simp only [if_pos hne]
    exact ⟨fun h => absurd h (by decide), fun h => absurd hne h.1⟩
  · simp only [if_neg hne]
    generalize env.body s.tree = body
    have hlog : "<log>".toList ++ body ++ logEnd = "<log>".toList ++ (body ++ logEnd) :=
      List.append_assoc ..
    have hlen : ("<log>".toList ++ body ++ logEnd).length = body.length + 12 := by
      simp only [List.length_append, show "<log>".toList.length = 5 from rfl,
        show logEnd.length = 7 from rfl]
      omega
    have hsize : bufSize = 16777216 := rfl
    constructor
    · intro h
      have hlength := congrArg List.length h
      simp only [List.length_append, List.length_drop, List.length_take, hlen,
        show logEnd.length = 7 from rfl] at hlength
      exact ⟨hne, by omega⟩
    · rintro ⟨-, hfits⟩
      rw [List.take_of_length_le (by omega), hlog]
      rw [show ("<log>".toList ++ (body ++ logEnd)).drop 5 = body ++ logEnd from rfl,
        List.drop_eq_nil_of_le, List.append_nil]
      rw [List.length_append]
      exact Nat.le_add_left ..

end Flush

/-! ### A run -/

section Run
variable {env} {s : State}

/-- A DUMPLOG adds no element, whatever it names. -/
theorem lineElements_dump (file : CStr) : lineElements ("DUMPLOG,".toList ++ file) = [] := by
  have hplain : ∀ c ∈ "DUMPLOG".toList, c ≠ ',' := by simp
  have hfields : delimSepNoCpy (some ("DUMPLOG,".toList ++ file)) ',' =
      "DUMPLOG".toList :: Web.explode ',' file := Web.explode_append hplain file
  rw [lineElements, parse, hfields]
  unfold logLine
  generalize Web.explode ',' file = args
  by_cases hlen : 10 < ("DUMPLOG".toList :: args).length
  · rw [if_pos hlen]
  · rw [if_neg hlen]
    simp only
    rw [if_neg (by decide), if_neg (by decide), if_neg (by decide), if_neg (by decide),
      if_neg (by decide), if_neg (by decide)]
    cases args with
    | nil => rfl
    | cons arg args =>
      by_cases hpath : arg.head? = some '.' ∨ arg.head? = some '/'
      · simp [hpath]
      · cases args <;> simp [hpath]

/-- A line taken from the queue, with what it adds to the tree. -/
theorem Arrived.taken {str : CStr} {queue : List CStr} {es : List Element} (h : Arrived s)
    (hqueue : s.queue = str :: queue) (hes : lineElements str = es) :
    Arrived { s with queue := queue, tree := s.tree ++ es } := by
  unfold Arrived at h ⊢
  rw [hqueue, List.flatMap_cons, hes] at h
  simp only [← List.append_assoc] at h ⊢
  exact h

theorem Arrived.taken_nil {str : CStr} {queue : List CStr} (h : Arrived s)
    (hqueue : s.queue = str :: queue) (hes : lineElements str = []) : Arrived { s with queue := queue } := by
  have htaken := h.taken hqueue hes
  rwa [List.append_nil] at htaken

theorem arrived_lenq (str : CStr) (h : Arrived s) :
    Arrived { s with queue := s.queue ++ [str], arrived := s.arrived ++ [str] } := by
  unfold Arrived at h ⊢
  simp only [List.flatMap_append]
  rw [← h]
  simp only [List.append_assoc]

/-- A DUMPLOG goes to the end of the queue, with no element of its own. -/
theorem arrived_dump (file : CStr) (h : Arrived s) :
    Arrived { s with queue := s.queue ++ ["DUMPLOG,".toList ++ file] } := by
  unfold Arrived at h ⊢
  simp only [List.flatMap_append, List.flatMap_singleton, lineElements_dump, List.append_nil]
  exact h

/-- Every step keeps the order in which elements arrive. -/
theorem step_arrived {s' : State} (e : Event) (h : Arrived s) (hstep : step env s e = some s') :
    Arrived s' := by
  cases e with
  | lenq str =>
    cases hstep
    exact arrived_lenq str h
  | log now opens =>
    rw [step] at hstep
    by_cases hcheck : s.atCheck = true
    · rw [if_pos hcheck] at hstep
      cases hstep
      have hsame : Arrived { s with atCheck := false } := h
      rw [check]
      simp only
      split_ifs
      · exact arrived_flush hsame
      · exact hsame
    · rw [if_neg hcheck] at hstep
      cases hqueue : s.queue with
      | nil =>
        rw [hqueue] at hstep
        cases hstep
        exact h
      | cons str queue =>
        rw [hqueue] at hstep
        obtain ⟨l, hparse, htake⟩ := Option.bind_eq_some_iff.mp hstep
        have htaken := fun es => @Arrived.taken s str queue es h hqueue
        have hnil := h.taken_nil hqueue
        rw [lineElements, hparse] at htaken hnil
        cases l with
        | empty =>
          cases htake
          exact hnil rfl
        | userCmd e =>
          cases htake
          exact htaken [e] rfl
        | event e =>
          cases htake
          exact htaken [e] rfl
        | unknown =>
          cases htake
          exact hnil rfl
        | dump file =>
          have hkept := hnil rfl
          simp only [take] at htake
          split_ifs at htake
          · cases htake
            exact arrived_dump file hkept
          · cases htake
            exact @arrived_flush env _ hkept
          · cases htake
            exact hkept
        | userDump userID file =>
          have hkept := hnil rfl
          simp only [take] at htake
          split_ifs at htake <;> cases htake <;> exact hkept

theorem step_complete (e : Event) (h : Complete env s) (hok : Ok env s e) :
    ∃ s', step env s e = some s' ∧ Complete env s' := by
  cases e with
  | lenq str => exact ⟨_, rfl, h.file, arrived_lenq str h.arrived⟩
  | log now opens =>
    rw [Ok] at hok
    by_cases hcheck : s.atCheck = true
    · rw [if_pos hcheck] at hok
      rw [step, if_pos hcheck]
      refine ⟨_, rfl, ?_⟩
      have hsame : Complete env { s with atCheck := false } := ⟨h.file, h.arrived⟩
      rw [check]
      simp only
      split_ifs with hflush
      · exact (complete_flush hsame).mpr (hok hflush.1 hflush.2)
      · exact hsame
    · rw [if_neg hcheck] at hok
      rw [step, if_neg hcheck]
      cases hqueue : s.queue with
      | nil => exact ⟨s, rfl, h⟩
      | cons str queue =>
        have hline := hok str (by rw [hqueue]; rfl)
        simp only
        have htaken := fun es => @Arrived.taken s str queue es h.arrived hqueue
        have hnil := Arrived.taken_nil h.arrived hqueue
        rw [lineElements] at htaken hnil
        cases hparse : parse str with
        | none =>
          rw [hparse] at hline
          exact hline.elim
        | some l =>
          rw [hparse] at hline htaken hnil
          rw [Option.bind_some]
          cases l with
          | empty => exact ⟨_, rfl, h.file, hnil rfl⟩
          | userCmd e => exact ⟨_, rfl, h.file, htaken [e] rfl⟩
          | event e => exact ⟨_, rfl, h.file, htaken [e] rfl⟩
          | unknown => exact ⟨_, rfl, h.file, hnil rfl⟩
          | dump file =>
            have hkept : Complete env { s with queue := queue } := ⟨h.file, hnil rfl⟩
            simp only [take]
            simp only [LineOk] at hline
            by_cases hearly : now - s.lastUserCmd < 3000
            · rw [if_pos hearly] at hline ⊢
              have hroom : ("DUMPLOG,".toList ++ file).length < 500 := by
                rw [List.length_append, show "DUMPLOG,".toList.length = 8 from rfl]
                omega
              rw [if_neg (by omega)]
              exact ⟨_, rfl, hkept.file, arrived_dump file hkept.arrived⟩
            · rw [if_neg hearly] at hline ⊢
              split_ifs with hopens
              · have hflushed := (complete_flush hkept).mpr (hline hopens)
                exact ⟨_, rfl, hflushed.file, hflushed.arrived⟩
              · exact ⟨_, rfl, hkept.file, hkept.arrived⟩
          | userDump userID file =>
            simp only [take]
            by_cases hopens : opens = true
            · obtain ⟨hfits, hother⟩ := hline hopens
              rw [if_neg (by simpa using hopens), if_neg (by simpa using hfits), hother]
              exact ⟨_, rfl, h.file, hnil rfl⟩
            · rw [if_pos hopens]
              exact ⟨_, rfl, h.file, hnil rfl⟩

theorem complete_initial (now : ℤ) : Complete env (initial now) := ⟨by simp [initial, flushedText], rfl⟩

end Run

/-- In a run in which each flush has something to write that fits the buffer, and no log of a user goes to the
    same file, the file is complete after every flush. -/
theorem file_complete (now : ℤ) (es : List Event) (hok : Along (step env) (Ok env) (initial now) es) :
    ∃ s, exec (step env) (initial now) es = some s ∧ Complete env s :=
  exec_some_along (fun _ e h => step_complete e h) es _ (complete_initial now) hok

/-! ### Runs -/

/-- Elements as they are rendered where no text has a character that is escaped. -/
def Element.render (e : Element) : CStr :=
  let tag (slash : CStr) (name : CStr) : CStr := '<' :: slash ++ name ++ ['>']
  tag [] e.name ++ e.children.flatMap (fun c => tag [] c.1 ++ c.2 ++ tag ['/'] c.1) ++ tag ['/'] e.name

def plainEnv : Env where
  body tree := tree.flatMap Element.render
  saved := Element.render
  isLogOut file := file = "logfile6.xml".toList

/-- The lines of a DUMPLOG that a transaction server accepts. -/
def dumplog : List Event :=
  [.lenq "userCmd,9,TRANS1,7,DUMPLOG, , ,./a, ".toList, .lenq "DUMPLOG,./a".toList]

/-- A line and a check, at `now`. -/
def turn (now : ℤ) : List Event := [.log now true, .log now true]

theorem file_complete_dumplog : ∃ s, exec (step plainEnv) (initial 0) (dumplog ++ turn 10 ++ turn 3010) =
    some s ∧ Complete plainEnv s :=
  file_complete plainEnv 0 _ (by decide +kernel)

/-- Of two DUMPLOGs that wait for the same user commands, the second has nothing to flush. -/
theorem secondDump : ∃ s, exec (step plainEnv) (initial 0)
      (dumplog ++ dumplog ++ turn 10 ++ [.log 10 true] ++ turn 10 ++ turn 3010 ++ turn 3010) = some s ∧
    s.flushed.length = 2 ∧ s.file ≠ logStart ++ flushedText plainEnv s.flushed ++ logEnd := by
  refine ⟨_, rfl, ?_, ?_⟩ <;> decide +kernel

end TradeC.LogServer
