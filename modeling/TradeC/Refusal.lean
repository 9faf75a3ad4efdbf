import TradeC.Refine
import TradeC.Lib.Run

/-! A failed command changes nothing.

    Every exit of `command_handler` that answers FAIL or BADCMD lies before the first write to the
    account, to the triggers, to the queue of requests and to the log of account changes. The one
    exception is the exit of COMMIT_BUY and COMMIT_SELL for an expired quote, which clears the pending
    order. -/

namespace TradeC
open Run

/-- The answer is FAIL or BADCMD. -/
def Reply.refused : Reply → Bool
  | .fail _ _ | .badcmd => true
  | .succ _ | .summary _ _ _ => false

/-- The commands that `command_handler` refuses because the quote of the pending order is too old. -/
def Cmd.expired (c : Cmd) (cUser : User) (comm : List CStr) : Bool :=
  comm = [] && c.now - cUser.promptTime > quoteTo &&
    (c.userCmd = "COMMIT_BUY".toList && cUser.buysell = 1 ||
      c.userCmd = "COMMIT_SELL".toList && cUser.buysell = -1)

namespace Server

/-- Users, with their balances, holdings and pending orders, and triggers are as before, no request
    has been queued, and no `accTrans` line has been written. -/
structure Untouched (s s' : Server) : Prop where
  user : s'.user = s.user
  mem : s'.mem = s.mem
  requests : s'.requests = s.requests
  accTrans : s'.accTrans = s.accTrans

/-- What a refusal may leave: an expired order is cleared. -/
def refusal (s : Server) (c : Cmd) (cUser : User) (comm : List CStr) : Server :=
  if c.expired cUser comm then s.setUser c.userID cUser.clearOrder else s

variable {s s' s₁ : Server}

theorem Untouched.refl (s : Server) : s.Untouched s := ⟨rfl, rfl, rfl, rfl⟩

theorem Untouched.trans (h : s.Untouched s₁) (h' : s₁.Untouched s') : s.Untouched s' :=
  ⟨h'.user.trans h.user, h'.mem.trans h.mem, h'.requests.trans h.requests,
    h'.accTrans.trans h.accTrans⟩

/-- A `userCmd` line is no `accTrans` line. -/
theorem untouched_logLine (s : Server) (c : Cmd) (stockID file funds : CStr) :
    s.Untouched (s.lenq (c.logLine stockID file funds)) :=
  ⟨rfl, rfl, rfl, by simp [Cmd.logLine, LogLine.acc]⟩

/-- A lookup may make a stock. -/
theorem untouched_findStock (s : Server) (st : StockID) : s.Untouched (s.findStock st) := by
  unfold findStock
  split_ifs
  · exact .refl s
  · exact ⟨rfl, rfl, rfl, rfl⟩

/-- A lookup may fetch a quote, whatever it is. -/
theorem untouched_setQuote (s : Server) (st : StockID) (q : Quote) :
    s.Untouched (s.setQuote st q) := ⟨rfl, rfl, rfl, rfl⟩

theorem untouched_freshQuote (s : Server) (c : Cmd) (st : StockID) :
    s.Untouched (s.freshQuote c st) := by
  unfold freshQuote
  split_ifs
  · exact untouched_setQuote s st c.quote
  · exact .refl s

/-- An expired order is cleared, whatever has been logged. -/
theorem Untouched.setUser (h : s.Untouched s') (u : UserID) (usr : User) :
    (s.setUser u usr).Untouched (s'.setUser u usr) where
  user := by simp only [Server.setUser, h.user]
  mem := h.mem
  requests := h.requests
  accTrans := h.accTrans

/-- If the answer is a refusal, the state is the one it is to leave. -/
def Keeps (s : Server) (r : Server × Reply) : Prop := r.2.refused → s.Untouched r.1

theorem Untouched.keeps (h : s.Untouched s') (r : Reply) : s.Keeps (s', r) := fun _ => h

/-- A success is not asked about. -/
theorem keeps_succ (data : List ℤ) : s.Keeps (s', .succ data) := by
  intro h
  simp [Reply.refused] at h

end Server

/-! ### The branches -/

section
open Server
variable {w : ℤ → ℤ} {s : Server} {c : Cmd} {cUser : User} {r : Server × Reply}

theorem keeps_add (amt : CStr) : s.Keeps (Command.add w s c cUser amt) := by
  unfold Command.add
  dsimp only
  split_ifs
  · exact (Untouched.refl s).keeps _
  · exact keeps_succ _

theorem keeps_quote (stk : CStr) : s.Keeps (Command.quote s c stk) := by
  unfold Command.quote
  split
  · exact (Untouched.refl s).keeps _
  · exact keeps_succ _

theorem keeps_buy (stk amt : CStr) : s.Keeps (Command.buy w s c cUser stk amt) := by
  unfold Command.buy
  split
  · exact (Untouched.refl s).keeps _
  rename_i st _
  dsimp only
  have hlog := untouched_logLine s c stk spc amt
  have hquote := (hlog.trans (untouched_findStock _ st)).trans (untouched_freshQuote _ c st)
  split_ifs
  · exact (Untouched.refl s).keeps _
  · exact hlog.keeps _
  · exact hlog.keeps _
  · exact hquote.keeps _
  · exact hquote.keeps _
  · exact keeps_succ _

theorem keeps_cancelOrder (side : ℤ) : s.Keeps (Command.cancelOrder s c cUser side) := by
  unfold Command.cancelOrder
  dsimp only
  split_ifs
  · exact (untouched_logLine s c spc spc spc).keeps _
  · exact keeps_succ _

theorem keeps_sell (stk amt : CStr) : s.Keeps (Command.sell w s c cUser stk amt) := by
  unfold Command.sell
  split
  · exact (Untouched.refl s).keeps _
  rename_i st _
  dsimp only
  have hlog := untouched_logLine s c stk spc amt
  have hfind := hlog.trans (untouched_findStock _ st)
  have hquote := hfind.trans (untouched_freshQuote _ c st)
  split
  · exact (Untouched.refl s).keeps _
  split
  · exact hfind.keeps _
  · split_ifs
    · exact hfind.keeps _
    · exact hfind.keeps _
    · exact hquote.keeps _
    · exact keeps_succ _
    · exact keeps_succ _

theorem keeps_setBuyAmount (stk amt : CStr) :
    s.Keeps (Command.setBuyAmount w s c cUser stk amt) := by
  unfold Command.setBuyAmount
  split
  · exact (Untouched.refl s).keeps _
  rename_i st _
  dsimp only
  have hlog := untouched_logLine s c stk spc amt
  split_ifs
  · exact (Untouched.refl s).keeps _
  · exact hlog.keeps _
  · exact hlog.keeps _
  · split
    · exact (hlog.trans (untouched_findStock _ st)).keeps _
    · exact keeps_succ _

theorem keeps_setTrigger (type : TType) (stk amt : CStr) :
    s.Keeps (Command.setTrigger w s c type stk amt) := by
  unfold Command.setTrigger
  split
  · exact (Untouched.refl s).keeps _
  rename_i st _
  dsimp only
  split_ifs
  · exact (Untouched.refl s).keeps _
  · split
    · exact ((untouched_logLine s c stk spc amt).trans (untouched_findStock _ st)).keeps _
    · exact keeps_succ _

theorem keeps_setSellAmount (stk amt : CStr) :
    s.Keeps (Command.setSellAmount w s c cUser stk amt) := by
  unfold Command.setSellAmount
  split
  · exact (Untouched.refl s).keeps _
  rename_i st _
  dsimp only
  have hlog := untouched_logLine s c stk spc amt
  have hfind := hlog.trans (untouched_findStock _ st)
  split_ifs
  · exact (Untouched.refl s).keeps _
  · exact hlog.keeps _
  · exact hfind.keeps _
  · exact hfind.keeps _
  · exact keeps_succ _

theorem keeps_dumplog (file : CStr) : s.Keeps (Command.dumplog s c file) := by
  unfold Command.dumplog
  split_ifs
  · exact (Untouched.refl s).keeps _
  · exact keeps_succ _

theorem keeps_displaySummary : s.Keeps (Command.displaySummary s c cUser) :=
  (untouched_logLine s c spc spc spc).keeps _

/-- Past the lookup of the trigger there is no refusal left. -/
theorem keeps_cancelSetBuy {stk : CStr} (h : Command.cancelSetBuy w s c cUser stk = some r) :
    s.Keeps r := by
  unfold Command.cancelSetBuy at h
  split at h
  · cases h
    exact (Untouched.refl s).keeps _
  rename_i st _
  dsimp only at h
  split at h
  · cases h
    exact ((untouched_logLine s c stk spc spc).trans (untouched_findStock _ st)).keeps _
  · obtain ⟨tr, _, h⟩ := Option.bind_eq_some_iff.mp h
    obtain ⟨removed, _, rfl⟩ := Option.map_eq_some_iff.mp h
    exact keeps_succ _

theorem keeps_cancelSetSell {stk : CStr} (h : Command.cancelSetSell s c stk = some r) :
    s.Keeps r := by
  unfold Command.cancelSetSell at h
  split at h
  · cases h
    exact (Untouched.refl s).keeps _
  rename_i st _
  dsimp only at h
  split at h
  · cases h
    exact ((untouched_logLine s c stk spc spc).trans (untouched_findStock _ st)).keeps _
  · obtain ⟨removed, _, rfl⟩ := Option.map_eq_some_iff.mp h
    exact keeps_succ _

/-- Only the two commits look at the age of a quote. -/
theorem expired_of_ne {comm : List CStr} (hbuy : c.userCmd ≠ "COMMIT_BUY".toList)
    (hsell : c.userCmd ≠ "COMMIT_SELL".toList) : c.expired cUser comm = false := by
  rw [Cmd.expired, decide_eq_false hbuy, decide_eq_false hsell, Bool.false_and, Bool.false_and,
    Bool.or_false, Bool.and_false]

theorem expired_badcmd {comm : List CStr} (h : c.userCmd ∉ Command.names comm) :
    c.expired cUser comm = false := by
  cases comm with
  | nil =>
    refine expired_of_ne (fun hbuy => ?_) fun hsell => ?_
    · rw [hbuy] at h
      exact absurd (by decide) h
    · rw [hsell] at h
      exact absurd (by decide) h
  | cons => rfl

/-- The refusals of COMMIT_BUY: no pending buy, or an expired one. -/
theorem refusal_commitBuy (hname : c.userCmd = "COMMIT_BUY".toList)
    (h : Command.commitBuy w s c cUser = some r) : (s.refusal c cUser []).Keeps r := by
  have hlog := untouched_logLine s c spc spc spc
  unfold Command.commitBuy at h
  dsimp only at h
  split_ifs at h with hside hlate
  · cases h
    have hexp : c.expired cUser [] = false := by simp [Cmd.expired, hname, hside]
    rw [refusal, hexp]
    exact hlog.keeps _
  · cases h
    have hexp : c.expired cUser [] = true := by simp_all [Cmd.expired]
    rw [refusal, hexp]
    exact (hlog.setUser _ _).keeps _
  · split at h
    · cases h
    · cases h
      exact keeps_succ _

/-- COMMIT_SELL is also refused when the stock is not held, before anything is written. -/
theorem refusal_commitSell (hname : c.userCmd = "COMMIT_SELL".toList)
    (h : Command.commitSell w s c cUser = some r) : (s.refusal c cUser []).Keeps r := by
  have hlog := untouched_logLine s c spc spc spc
  unfold Command.commitSell at h
  dsimp only at h
  split_ifs at h with hside hlate
  · cases h
    have hexp : c.expired cUser [] = false := by simp [Cmd.expired, hname, hside]
    rw [refusal, hexp]
    exact hlog.keeps _
  · cases h
    have hexp : c.expired cUser [] = true := by simp_all [Cmd.expired]
    rw [refusal, hexp]
    exact (hlog.setUser _ _).keeps _
  · split at h
    · cases h
    split at h
    · cases h
      have hexp : c.expired cUser [] = false := by simp [Cmd.expired, hlate]
      rw [refusal, hexp]
      exact hlog.keeps _
    · cases h
      exact keeps_succ _

/-- No other command clears an expired order. -/
theorem refusal_of_keeps {comm : List CStr} (hexp : c.expired cUser comm = false)
    (h : s.Keeps r) : (s.refusal c cUser comm).Keeps r := by
  rw [Server.refusal, hexp]
  exact h

theorem refusal_dispatch {comm : List CStr} (h : Command.dispatch w s c cUser comm = some r) :
    (s.refusal c cUser comm).Keeps r := by
  have hother : ∀ {name : CStr} {r : Server × Reply}, c.userCmd = name →
      name ≠ "COMMIT_BUY".toList ∧ name ≠ "COMMIT_SELL".toList → s.Keeps r →
        (s.refusal c cUser comm).Keeps r := by
    rintro name r rfl ⟨hbuy, hsell⟩ h
    exact refusal_of_keeps (expired_of_ne hbuy hsell) h
  cases Command.dispatched h with
  | commitBuy hcmd h => exact refusal_commitBuy hcmd h
  | cancelBuy hcmd => exact hother hcmd (by decide) (keeps_cancelOrder 1)
  | commitSell hcmd h => exact refusal_commitSell hcmd h
  | cancelSell hcmd => exact hother hcmd (by decide) (keeps_cancelOrder (-1))
  | displaySummary hcmd => exact hother hcmd (by decide) keeps_displaySummary
  | add hcmd => exact hother hcmd (by decide) (keeps_add _)
  | quote hcmd => exact hother hcmd (by decide) (keeps_quote _)
  | cancelSetBuy hcmd h => exact hother hcmd (by decide) (keeps_cancelSetBuy h)
  | cancelSetSell hcmd h => exact hother hcmd (by decide) (keeps_cancelSetSell h)
  | dumplog hcmd => exact hother hcmd (by decide) (keeps_dumplog _)
  | buy hcmd => exact hother hcmd (by decide) (keeps_buy _ _)
  | sell hcmd => exact hother hcmd (by decide) (keeps_sell _ _)
  | setBuyAmount hcmd => exact hother hcmd (by decide) (keeps_setBuyAmount _ _)
  | setBuyTrigger hcmd => exact hother hcmd (by decide) (keeps_setTrigger .b _ _)
  | setSellAmount hcmd => exact hother hcmd (by decide) (keeps_setSellAmount _ _)
  | setSellTrigger hcmd => exact hother hcmd (by decide) (keeps_setTrigger .s _ _)
  | badcmd hcmd => exact refusal_of_keeps (expired_badcmd hcmd) ((Untouched.refl s).keeps _)

/-- A command that is answered with FAIL or BADCMD leaves the users, the triggers, the queue of
    requests and the `accTrans` lines of the log as they were; an expired COMMIT_BUY or COMMIT_SELL
    clears the pending order, and nothing else. -/
theorem refused_command_changes_nothing {commStr : Option CStr} {s' : Server} {reply : Reply}
    (h : commandHandler w s c commStr = some (s', reply)) (hrefused : reply.refused) :
    ∃ cUser, s.user c.userID = some cUser ∧
      (s.refusal c cUser (delimSepNoCpy commStr ',')).Untouched s' := by
  obtain ⟨cUser, husr, hdispatch⟩ := Option.bind_eq_some_iff.mp h
  exact ⟨cUser, husr, refusal_dispatch hdispatch hrefused⟩

end

/-- A BUY, and its commit half a minute later. -/
def lateBuy : List Event :=
  [.connect aUser, commandAt 100000 100 "ADD" "100.00", commandAt 100000 100 "BUY" "ABC,50.00"]

def lateCommit : Cmd := ⟨"4".toList, "COMMIT_BUY".toList, aUser, 130000, ⟨100, 130000⟩⟩

theorem refused_command_changes_nothing_late : ∃ s s' reply cUser,
    exec (step wrap64) Server.init lateBuy = some s ∧
      commandHandler wrap64 s lateCommit none = some (s', reply) ∧ s.user aUser = some cUser ∧
      (s.refusal lateCommit cUser []).Untouched s' := by
  have hrun : ∃ s ∈ exec (step wrap64) Server.init lateBuy,
      ∃ r ∈ commandHandler wrap64 s lateCommit none, r.2.refused = true := by decide
  obtain ⟨s, hs, ⟨s', reply⟩, hr, hrefused⟩ := hrun
  obtain ⟨cUser, husr, hsame⟩ := refused_command_changes_nothing hr hrefused
  exact ⟨s, s', reply, cUser, hs, hr, husr, hsame⟩

end TradeC
