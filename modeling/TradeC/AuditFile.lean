import TradeC.AuditLog
import TradeC.LogFields
import TradeC.Unbroken

/-! The file of the log server replays to the balances.

    The lines of the transaction server are printed, sent by `log_handler`, put into the queue of the log
    server and taken apart into elements. Added up, the elements of a user give the user's balance, whatever
    other programs log in between. -/

namespace TradeC.AuditFile
open Run Decimal LogServer LogFields

/-! ### Lines -/

/-- What is printed for a line; the last kind passes the DUMPLOG of a user on. -/
def text : TradeC.LogLine → CStr
  | .userCmd ts transID userCmd userID stockID file funds =>
    (Line.userCmdLog ts transID userCmd userID.str stockID file funds).text
  | .accTrans ts transID action userID funds => (Line.accTransLog ts transID action userID.str funds).text
  | .dumplog userID file => "DUMPLOG,".toList ++ (userID.str ++ ',' :: file)

def child (e : Element) (name : String) : Option CStr := e.children.lookup name.toList

/-- An element that changes the balance of `u`. -/
def Pays (u : UserID) (e : Element) : Prop :=
  e.name = "accountTransaction".toList ∧ child e "username" = some u.str

instance (u : UserID) (e : Element) : Decidable (Pays u e) := inferInstanceAs (Decidable (_ ∧ _))

/-- One element, for the running sum of user `u`; no sum when the funds are no number. -/
def replayElement (u : UserID) (sum : ℤ) (e : Element) : Option ℤ :=
  if Pays u e then
    ((child e "funds").bind numeric).map fun funds =>
      if child e "action" = some "add".toList then sum + funds
      else if child e "action" = some "remove".toList then sum - funds
      else sum
  else some sum

def replayElements (u : UserID) (es : List Element) : Option ℤ := es.foldlM (replayElement u) 0

/-- Elements that do not concern `u` leave the sum. -/
theorem replay_others {u : UserID} : ∀ {es : List Element}, (∀ e ∈ es, ¬ Pays u e) → ∀ sum,
    es.foldlM (replayElement u) sum = some sum := by
  intro es
  induction es with
  | nil =>
    intro _ sum
    rfl
  | cons e es ih =>
    intro h sum
    rw [List.foldlM_cons, replayElement, if_neg (h e List.mem_cons_self)]
    exact ih (fun e' he' => h e' (List.mem_cons_of_mem e he')) sum

theorem name_of_element {name : String} {always optional : List String} {logSep : List CStr} {e : Element}
    (h : element name always optional logSep = some e) : e.name = name.toList := by
  unfold element at h
  simp only at h
  split_ifs at h
  cases h
  rfl

theorem name_userCmdLog {ts : ℤ} {transID userCmd userID stockID file funds : CStr} {e : Element}
    (h : e ∈ lineElements (Line.userCmdLog ts transID userCmd userID stockID file funds).text) :
    e.name = "userCommand".toList := by
  rw [Line.lineElements_text] at h
  split_ifs at h
  · exact absurd h List.not_mem_nil
  · rw [Line.maker, Option.mem_toList] at h
    exact name_of_element h

theorem child_accTransLog {ts : ℤ} {transID action userID funds : CStr} {e : Element}
    (h : e ∈ (Line.accTransLog ts transID action userID funds).entry) :
    e.name = "accountTransaction".toList ∧ child e "username" = some userID ∧ child e "action" = some action ∧
      child e "funds" = some funds := by
  have heq := Option.some.inj h
  rw [← heq]
  refine ⟨rfl, ?_⟩
  simp [child, stamp, List.lookup_cons]

theorem userID_ext {u u' : UserID} (h : u.str = u'.str) : u = u' := by
  cases u
  cases u'
  cases h
  rfl

/-- The elements of a line change the sum as the line does. -/
theorem replay_text (u : UserID) {transID : CStr} {comm : List CStr} {l : TradeC.LogLine} (h : Emitted transID comm l)
    (hcomma : ',' ∉ transID) (sum : ℤ) :
    (lineElements (text l)).foldlM (replayElement u) sum = l.acc.toList.foldlM (replayLine u) sum := by
  cases l with
  | userCmd ts transID' userCmd userID stockID file funds =>
    have hothers : ∀ e ∈ lineElements (text (.userCmd ts transID' userCmd userID stockID file funds)),
        ¬ Pays u e := by
      intro e he hpays
      have hname := name_userCmdLog he
      exact absurd (hname.symm.trans hpays.1) (by decide)
    exact replay_others hothers sum
  | accTrans ts transID' action userID funds =>
    obtain ⟨rfl, haction, hfunds⟩ := h
    obtain ⟨e, he, hline⟩ := (Line.survives_accTransLog ts haction (comma_userID userID) hfunds).mpr hcomma
    have htext : lineElements (text (.accTrans ts transID' action userID funds)) = [e] := hline
    obtain ⟨hname, huser, haction', hfunds'⟩ := child_accTransLog he
    have hpays : Pays u e ↔ userID = u := by
      rw [Pays, huser, Option.some.injEq, and_iff_right hname]
      exact ⟨userID_ext, congrArg UserID.str⟩
    have hacc : (TradeC.LogLine.accTrans ts transID' action userID funds).acc = some (userID, action, funds) := rfl
    rw [htext, hacc, Option.toList_some, List.foldlM_cons, List.foldlM_cons, replayElement, replayLine]
    simp only [hpays, haction', hfunds', Option.some.injEq, Option.bind_some]
    rfl
  | dumplog userID file =>
    have hdump : lineElements (text (.dumplog userID file)) = [] := lineElements_dump _
    rw [hdump]
    rfl

/-- The elements of all lines of a server replay as its lines do. -/
theorem replay_logs {es : List TradeC.Event} (hcomma : ∀ c commStr, .command c commStr ∈ es → ',' ∉ c.transID)
    (u : UserID) : ∀ {logs : List TradeC.LogLine}, (∀ l ∈ logs, From es l) → ∀ sum,
      ((logs.map text).flatMap lineElements).foldlM (replayElement u) sum =
        (logs.filterMap TradeC.LogLine.acc).foldlM (replayLine u) sum := by
  intro logs
  induction logs with
  | nil =>
    intro _ sum
    rfl
  | cons l logs ih =>
    intro h sum
    obtain ⟨c, commStr, hc, hemit⟩ := h l List.mem_cons_self
    have hsplit : (l :: logs).filterMap TradeC.LogLine.acc = l.acc.toList ++ logs.filterMap TradeC.LogLine.acc := by
      cases hacc : l.acc with
      | none => rw [List.filterMap_cons_none hacc, Option.toList_none, List.nil_append]
      | some x => rw [List.filterMap_cons_some hacc, Option.toList_some, List.singleton_append]
    rw [List.map_cons, List.flatMap_cons, List.foldlM_append, replay_text u hemit (hcomma c commStr hc), hsplit,
      List.foldlM_append]
    exact bind_congr fun sum' => ih (fun l' hl' => h l' (List.mem_cons_of_mem l hl')) sum'

/-- Lines of other programs, wherever they come in between, change no sum of `u`. -/
theorem replay_filter {u : UserID} {mine : CStr → Bool} : ∀ {arrived : List CStr},
    (∀ str ∈ arrived, mine str = false → ∀ e ∈ lineElements str, ¬ Pays u e) → ∀ sum,
      (arrived.flatMap lineElements).foldlM (replayElement u) sum =
        ((arrived.filter mine).flatMap lineElements).foldlM (replayElement u) sum := by
  intro arrived
  induction arrived with
  | nil =>
    intro _ sum
    rfl
  | cons str arrived ih =>
    intro h sum
    have hrest := ih fun str' hstr' => h str' (List.mem_cons_of_mem str hstr')
    rw [List.flatMap_cons, List.foldlM_append]
    cases hmine : mine str with
    | true =>
      rw [List.filter_cons_of_pos hmine, List.flatMap_cons, List.foldlM_append]
      exact bind_congr hrest
    | false =>
      rw [List.filter_cons_of_neg (by simp [hmine]), replay_others (h str List.mem_cons_self hmine)]
      exact hrest sum

/-! ### From the commands to the file -/

theorem exec_replayed {es : List TradeC.Event} {s : Server}
    (hweb : Along (TradeC.step wrap64) WebAmounts Server.init es)
    (hok : Along (TradeC.step wrap64) (fun s e => SalesCovered s e) Server.init es)
    (hbuy : Along (TradeC.step wrap64) (fun s e => NoBuyFires s e) Server.init es)
    (hfits : Along (TradeC.step wrap64) (Fits wrap64) Server.init es)
    (h : exec (TradeC.step wrap64) Server.init es = some s) : s.Replayed := by
  refine exec_inv_along (fun s e s' hs hok hstep => ?_) es Server.init s replayed_init
    (along_and (along_and hweb (along_and hok hbuy)) hfits) h
  rw [step_fits hs.wf hok.2] at hstep
  exact step_replayed hs hok.1.1 hok.1.2.1 hok.1.2.2 hstep

/-- The lines of a run of the transaction server, delivered over a connection that does not break, and taken
    from the queue of the log server, whose other lines do not concern the users of this server. -/
structure Logged (env : Env) (s : Server) (t : State) : Prop where
  delivered : ∃ es d, Delivery.lines es = s.logs.map text ∧
    Along Delivery.State.step Delivery.Unbroken Delivery.State.init es ∧
    exec Delivery.State.step Delivery.State.init es = some d ∧ d.pc = .ldeq ∧ d.queue = [] ∧
    ∃ mine : CStr → Bool, t.arrived.filter mine = d.received.map Prod.snd ∧
      ∀ u, (s.user u).isSome → ∀ str ∈ t.arrived, mine str = false → ∀ e ∈ lineElements str, ¬ Pays u e
  taken : ∃ now es, Along (LogServer.step env) (Ok env) (initial now) es ∧
    exec (LogServer.step env) (initial now) es = some t ∧ t.queue = []

/-- In every run with two-decimal amounts and transaction numbers without a comma, in which no buy trigger
    fires, no negative sale is settled and no result leaves 64 bits: once its lines are delivered and taken, the
    file of the log server is the rendering of the elements flushed, and these with the ones still in the tree
    replay to the balance of every user. -/
theorem file_replays {es : List TradeC.Event} {s : Server} {env : Env} {t : State}
    (hweb : Along (TradeC.step wrap64) WebAmounts Server.init es)
    (hok : Along (TradeC.step wrap64) (fun s e => SalesCovered s e) Server.init es)
    (hbuy : Along (TradeC.step wrap64) (fun s e => NoBuyFires s e) Server.init es)
    (hfits : Along (TradeC.step wrap64) (Fits wrap64) Server.init es)
    (hcomma : ∀ c commStr, .command c commStr ∈ es → ',' ∉ c.transID)
    (h : exec (TradeC.step wrap64) Server.init es = some s) (hlogged : Logged env s t) :
    t.file = logStart ++ flushedText env t.flushed ++ logEnd ∧
      ∀ u usr, s.user u = some usr → replayElements u (t.flushed.flatten ++ t.tree) = some usr.balance := by
  obtain ⟨⟨des, d, hlines, hunbroken, hd, hpc, hqueue, mine, harrived, hothers⟩, now, les, hles, ht, htq⟩ := hlogged
  have hinitial : Complete env (initial now) := complete_initial now
  obtain ⟨t', ht', hcomplete⟩ := exec_some_along (fun _ e h => step_complete e h) les _ hinitial hles
  obtain rfl := Option.some.inj (ht.symm.trans ht')
  refine ⟨hcomplete.file, fun u usr husr => ?_⟩
  have hreceived := (Delivery.exec_once hunbroken hd).received_all hd hpc hqueue
  have helements := hcomplete.arrived
  rw [htq, List.flatMap_nil, List.append_nil] at helements
  rw [replayElements, helements, replay_filter (hothers u (Option.isSome_of_eq_some husr)), harrived, hreceived,
    hlines, replay_logs hcomma u (run_sourced wrap64 h).logs]
  have hreplay := (exec_replayed hweb hok hbuy hfits h).replay u
  rwa [Book.balance_of_acct _ (Server.acct_book husr)] at hreplay

def oneAdd : List TradeC.Event := [.connect aUser, commandAt 100000 100 "ADD" "100.00"]

/-- The handler connects and sends the two lines of the ADD. -/
def deliver (logs : List CStr) : List Delivery.Event :=
  let ok := Delivery.Event.handler true
  let line := [ok, ok, ok, .server 0 true, .server 0 true, .server 0 true, ok]
  logs.map .lenq ++ [ok, ok] ++ line ++ line

def aDumplog : CStr := "DUMPLOG,./testLOG".toList

/-- They are in the file after a DUMPLOG of another connection. -/
def dumped (logs : List CStr) : List LogServer.Event :=
  (logs ++ [aDumplog]).map .lenq ++ LogServer.turn 10 ++ LogServer.turn 10 ++ LogServer.turn 3010

set_option synthInstance.maxSize 1000 in
theorem file_replays_oneAdd : ∃ s, ∃ t : State, ∃ usr, exec (TradeC.step wrap64) Server.init oneAdd = some s ∧
    s.user aUser = some usr ∧ t.file = logStart ++ flushedText plainEnv t.flushed ++ logEnd ∧ t.tree = [] ∧
    replayElements aUser t.flushed.flatten = some usr.balance := by
  obtain ⟨s, hs, usr, husr, d, hd, t, ht, hunbroken, hpc, hqueue, hlines, hok, htq, harrived, hothers, htree⟩ :
      ∃ s ∈ exec (TradeC.step wrap64) Server.init oneAdd, ∃ usr ∈ s.user aUser,
        ∃ d ∈ exec Delivery.State.step Delivery.State.init (deliver (s.logs.map text)),
        ∃ t ∈ exec (LogServer.step plainEnv) (initial 0) (dumped (s.logs.map text)),
          Along Delivery.State.step Delivery.Unbroken Delivery.State.init (deliver (s.logs.map text)) ∧
          d.pc = .ldeq ∧ d.queue = [] ∧ Delivery.lines (deliver (s.logs.map text)) = s.logs.map text ∧
          Along (LogServer.step plainEnv) (Ok plainEnv) (initial 0) (dumped (s.logs.map text)) ∧ t.queue = [] ∧
          t.arrived.filter (· ≠ aDumplog) = d.received.map Prod.snd ∧
          (∀ str ∈ t.arrived, decide (str ≠ aDumplog) = false → lineElements str = []) ∧ t.tree = [] := by
    decide +kernel
  have hlogged : Logged plainEnv s t :=
    ⟨⟨_, d, hlines, hunbroken, hd, hpc, hqueue, _, harrived, fun u _ str hstr hmine e he => by
      rw [hothers str hstr hmine] at he
      cases he⟩, 0, _, hok, ht, htq⟩
  have hcomma : ∀ c commStr, .command c commStr ∈ oneAdd → ',' ∉ c.transID := by
    intro c commStr hc
    simp only [oneAdd, commandAt, List.mem_cons, List.not_mem_nil, or_false, reduceCtorEq, false_or,
      Event.command.injEq] at hc
    rw [hc.1]
    decide
  obtain ⟨hfile, hreplay⟩ := file_replays (by decide) (by decide) (by decide) (by decide) hcomma hs hlogged
  have hbal := hreplay aUser usr husr
  rw [htree, List.append_nil] at hbal
  exact ⟨s, t, usr, hs, husr, hfile, htree, hbal⟩

end TradeC.AuditFile
