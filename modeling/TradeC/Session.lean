import TradeC.Orders
import TradeC.Replies
import TradeC.Message
import TradeC.Lib.Decimal

/-! The pending order of a web session and of its user on the transaction server.

    buy.php and sell.php keep what they have placed in the session, and commit or cancel only that.
    logout.php destroys the session and sends nothing, so that the order it had placed stays pending on the
    server, and every page refuses it from then on. -/

namespace TradeC.Web
open Run

/-! ### The pages -/

/-- buy.php and sell.php, which differ in the names of their commands and variables. -/
inductive Page where
  | buy
  | sell
  deriving DecidableEq

namespace Page

def userCmd : Page → CStr
  | buy => "BUY".toList
  | sell => "SELL".toList

def commitCmd : Page → CStr
  | buy => "COMMIT_BUY".toList
  | sell => "COMMIT_SELL".toList

def cancelCmd : Page → CStr
  | buy => "CANCEL_BUY".toList
  | sell => "CANCEL_SELL".toList

/-- What `buysell` is for an order of the page. -/
def side : Page → ℤ
  | buy => 1
  | sell => -1

end Page

/-- The variables of a session; a variable that is null or not set is `none`. -/
structure Session where
  transNum : ℕ
  timeEnd : Option ℤ
  buyPending : Option ℤ
  sellPending : Option ℤ

namespace Session

def pending (ses : Session) : Page → Option ℤ
  | .buy => ses.buyPending
  | .sell => ses.sellPending

def setPending (ses : Session) (x : ℤ) : Page → Session
  | .buy => { ses with buyPending := some x }
  | .sell => { ses with sellPending := some x }

/-- `$_SESSION["timeEnd"] > time()`; null is not greater. -/
def inTime (ses : Session) (time : ℤ) : Bool := ses.timeEnd.any (time < ·)

/-- `$_SESSION["timeEnd"] <= time()`, which null is. -/
def late (ses : Session) (time : ℤ) : Bool := ses.timeEnd.all (· ≤ time)

/-- After a commit or a cancel, whatever the answer. -/
def settled (ses : Session) (p : Page) : Session := { ses.setPending 0 p with timeEnd := none }

end Session

/-- A string as a number: the digits it starts with, after a sign. -/
def numeric : CStr → ℤ
  | '-' :: s => -Nat.ofDigitChars 10 (s.takeWhile Char.isDigit) 0
  | s => Nat.ofDigitChars 10 (s.takeWhile Char.isDigit) 0

/-- `explode(",", array_pop(explode("|", $response)))`. -/
def responseArray (response : CStr) : List CStr :=
  explode ',' ((explode '|' response).getLast?.getD [])

structure Market where
  server : Server
  session : Option Session

/-- What the browser, and everything else that uses the server, does. `now` is the clock of the server in
    milliseconds, `time` that of the web server in seconds. -/
inductive Action where
  | order (p : Page) (stockid amount : CStr) (now : ℤ) (quote : Quote)
  | commit (p : Page) (time now : ℤ)
  | cancel (p : Page) (now : ℤ)
  | logout
  | login
  | other (e : Event)

section
variable (w : ℤ → ℤ) (numberFormat : CStr → Option CStr) (userid : UserID)

/-- A request of a page and its response. The connection handler loads a user that is new, and the NUL of
    the reply is sent. -/
def request (s : Server) (transNum : ℕ) (userCmd : CStr) (comm : Option CStr) (now : ℤ)
    (quote : Quote) : Option (Server × CStr) :=
  let s := if (s.user userid).isSome then s else addUser w s userid
  (commandHandler w s ⟨ld transNum, userCmd, userid, now, quote⟩ comm).map fun (s, reply) =>
    (s, reply.text (ld transNum) userCmd ++ [nul])

namespace Market
variable (s : Market) (ses : Session)

/-- Buy, or Sell. `numberFormat` is PHP's `number_format` to two decimals. -/
def order (p : Page) (stockid amount : CStr) (now : ℤ) (quote : Quote) : Option Market :=
  if ses.buyPending ≠ some 1 ∧ ses.sellPending ≠ some 1 then
    let stockid := stockid.filter fun c => isAlnum c || c = ' '
    match numberFormat (amount.filter fun c => c.isDigit || c = '.') with
    | none => some { s with session := some ses }
    | some amount =>
      (request w userid s.server ses.transNum p.userCmd (some (stockid ++ ',' :: amount)) now
        quote).map fun (server, response) =>
          let fields := responseArray response
          if fields[0]? = some "SUCC".toList then
            let timeEnd := 30 + numeric (fields[3]?.getD []) / 1000
            ⟨server, some ({ ses with timeEnd := some timeEnd }.setPending 1 p)⟩
          else ⟨server, some (ses.setPending 0 p)⟩
  else some { s with session := some ses }

/-- A request whose response is only shown. -/
def settle (p : Page) (userCmd : CStr) (now : ℤ) : Option Market :=
  (request w userid s.server ses.transNum userCmd none now ⟨0, 0⟩).map fun (server, _) =>
    ⟨server, some (ses.settled p)⟩

/-- Commit Buy, or Commit Sell. -/
def commit (p : Page) (time now : ℤ) : Option Market :=
  if ses.pending p = some 1 ∧ ses.inTime time then s.settle w userid ses p p.commitCmd now
  else if ses.pending p = some 1 ∧ ses.late time then s.settle w userid ses p p.cancelCmd now
  else some { s with session := some ses }

/-- Cancel Buy, or Cancel Sell. -/
def cancel (p : Page) (now : ℤ) : Option Market :=
  if ses.pending p = some 1 then s.settle w userid ses p p.cancelCmd now
  else some { s with session := some ses }

end Market

/-- login.php; the pending variables of a session that is there are kept. -/
def login : Option Session → Session
  | none => ⟨0, none, none, none⟩
  | some ses => { ses with transNum := 0, timeEnd := none }

/-- An action. Without a session the pages reach no server, and the other steps of the server are those
    that do not load the user and are not its order commands. -/
def act (s : Market) : Action → Option Market
  | .order p stockid amount now quote => s.session.bind fun ses =>
    s.order w numberFormat userid { ses with transNum := ses.transNum + 1 } p stockid amount now quote
  | .commit p time now => s.session.bind fun ses =>
    s.commit w userid { ses with transNum := ses.transNum + 1 } p time now
  | .cancel p now => s.session.bind fun ses =>
    s.cancel w userid { ses with transNum := ses.transNum + 1 } p now
  | .logout => some { s with session := none }
  | .login => some { s with session := some (login s.session) }
  | .other e =>
    if e.spares userid then (step w s.server e).map ({ s with server := · }) else none

end

def Market.init : Market := ⟨Server.init, none⟩

/-! ### The agreement -/

namespace Market
variable (s : Market) (u : UserID)

def pending (p : Page) : Option ℤ := s.session.bind fun ses => ses.pending p

/-- The session and the server agree on the order of a page. -/
def InStep (p : Page) : Prop := s.pending p = some 1 ↔ s.server.buysell u = p.side

/-- An order pending on the server that its page neither commits nor cancels. -/
def Refused (p : Page) : Prop := s.server.buysell u = p.side ∧ s.pending p ≠ some 1

/-- The invariant. -/
structure Agree : Prop where
  inStep : ∀ p, s.InStep u p
  sound : s.server.SoundFor u

end Market

/-! ### Responses -/

theorem field_ne_bar (x : ℤ) : ∀ c ∈ field x, c ≠ '|' := by
  intro c hc
  rcases List.mem_cons.mp hc with rfl | hc
  · decide
  · exact ld_ne x (by decide) (by decide) c hc

theorem getLast_delimLoop {delim : Char} {b : CStr} (hb : ∀ c ∈ b, c ≠ delim) :
    ∀ (a cur : CStr), (delimLoop delim (a ++ delim :: b) cur).getLast? = some b := by
  intro a
  induction a with
  | nil =>
    intro cur
    simp [delimLoop, delimLoop_none b [] hb]
  | cons c a ih =>
    intro cur
    rw [List.cons_append, delimLoop]
    split_ifs
    · rw [List.getLast?_cons, ih []]
      rfl
    · exact ih _

theorem getLast_explode {delim : Char} {b : CStr} (hb : ∀ c ∈ b, c ≠ delim) (a : CStr) :
    (explode delim (a ++ delim :: b)).getLast? = some b := getLast_delimLoop hb a []

/-- The last part of a response is taken apart at the commas. -/
theorem responseArray_last (a : CStr) {status rest : CStr} (hs : ∀ c ∈ status, c ≠ '|' ∧ c ≠ ',')
    (hr : ∀ c ∈ rest, c ≠ '|') :
    (responseArray (a ++ '|' :: (status ++ ',' :: rest)))[0]? = some status := by
  have hlast : ∀ c ∈ status ++ ',' :: rest, c ≠ '|' := by
    intro c hc
    rcases List.mem_append.mp hc with hc | hc
    · exact (hs c hc).1
    · rcases List.mem_cons.mp hc with rfl | hc
      · decide
      · exact hr c hc
  rw [responseArray, getLast_explode hlast a, Option.getD_some,
    explode_append fun c hc => (hs c hc).2]
  rfl

theorem fields_ne_bar (data : List ℤ) : ∀ c ∈ data.flatMap field ++ [nul], c ≠ '|' := by
  intro c hc
  rcases List.mem_append.mp hc with hc | hc
  · obtain ⟨x, -, hc⟩ := List.mem_flatMap.mp hc
    exact field_ne_bar x c hc
  · rw [List.mem_singleton.mp hc]
    decide

/-- The status of a reply that goes on after it. -/
theorem responseArray_status (a : CStr) {s : CStr} (hs : s.all fun c => c ≠ '|' && c ≠ ',') (x : ℤ)
    (data : List ℤ) :
    (responseArray (a ++ '|' :: s ++ field x ++ data.flatMap field ++ [nul]))[0]? =
      some s := by
  have hsplit : a ++ '|' :: s ++ field x ++ data.flatMap field ++ [nul] =
      a ++ '|' :: (s ++ ',' :: (ld x ++ (data.flatMap field ++ [nul]))) := by
    simp only [field, List.append_assoc, List.cons_append]
  have hstatus : ∀ c ∈ s, c ≠ '|' ∧ c ≠ ',' := fun c hc => by
    simpa using List.all_eq_true.mp hs c hc
  rw [hsplit]
  exact responseArray_last a hstatus fun c hc =>
    (List.mem_append.mp hc).elim (ld_ne x (by decide) (by decide) c) (fields_ne_bar data c)

/-- A reply with data is seen as a success. -/
theorem responseArray_succ (transID userCmd : CStr) (d : ℤ) (data : List ℤ) :
    (responseArray ((Reply.succ (d :: data)).text transID userCmd ++ [nul]))[0]? =
      some "SUCC".toList := by
  have h := responseArray_status ("WSR|".toList ++ transID ++ '|' :: userCmd) (s := "SUCC".toList)
    (by decide) d data
  rw [List.append_assoc _ (field d), ← List.flatMap_cons] at h
  exact h

/-- A refusal is not. -/
theorem responseArray_refused (transID userCmd : CStr) {reply : Reply} (hr : reply.refused) :
    (responseArray (reply.text transID userCmd ++ [nul]))[0]? = some "FAIL".toList := by
  cases reply with
  | succ | summary => cases hr
  | fail code data =>
    have h := responseArray_status ("WSR|".toList ++ transID ++ '|' :: userCmd) (s := "FAIL".toList)
      (by decide) code data
    exact h
  | badcmd =>
    have h := responseArray_status ("WSR|".toList ++ transID ++ '|' :: "BADCMD".toList) (s := "FAIL".toList)
      (by decide) (-20) []
    rw [List.flatMap_nil, List.append_nil] at h
    exact h

/-! ### Requests -/

section
variable {w : ℤ → ℤ} {numberFormat : CStr → Option CStr} {u : UserID} {srv srv' : Server}
  {response userCmd : CStr} {transNum : ℕ} {comm : Option CStr} {now : ℤ} {quote : Quote}

/-- The command of a request is executed for a user that is there, with the order it had. -/
theorem request_spec (hs : srv.SoundFor u)
    (h : request w u srv transNum userCmd comm now quote = some (srv', response)) :
    ∃ srv₀ cUser reply, cUser.Sound ∧ cUser.buysell = srv.buysell u ∧ srv₀.user u = some cUser ∧
      Command.dispatch w srv₀ ⟨ld transNum, userCmd, u, now, quote⟩ cUser (delimSepNoCpy comm ',') =
        some (srv', reply) ∧ response = reply.text (ld transNum) userCmd ++ [nul] := by
  obtain ⟨⟨srv₁, reply⟩, hcmd, hpair⟩ := Option.map_eq_some_iff.mp h
  cases hpair
  obtain ⟨cUser, husr, hdispatch⟩ := Option.bind_eq_some_iff.mp hcmd
  refine ⟨_, cUser, reply, ?_, ?_, husr, hdispatch, rfl⟩ <;> dsimp only at husr <;>
    split_ifs at husr with hloaded
  · exact hs cUser husr
  · obtain ⟨usr, hset, -, hsound⟩ := user_addUser w srv u
    rw [hset, Function.update_self] at husr
    exact Option.some.inj husr ▸ hsound
  · exact (Server.buysell_eq husr).symm
  · obtain ⟨usr, hset, hnone, -⟩ := user_addUser w srv u
    rw [hset, Function.update_self] at husr
    rw [← Option.some.inj husr, hnone, Server.buysell, Option.not_isSome_iff_eq_none.mp hloaded]
    rfl

/-- An order of a page is refused, or placed, and the page sees which. -/
theorem request_order (p : Page) (hs : srv.SoundFor u)
    (h : request w u srv transNum p.userCmd comm now quote = some (srv', response)) :
    srv'.SoundFor u ∧
      ((responseArray response)[0]? = some "FAIL".toList ∧ srv'.buysell u = srv.buysell u ∨
        (responseArray response)[0]? = some "SUCC".toList ∧ srv'.buysell u = p.side) := by
  obtain ⟨srv₀, cUser, reply, hsound, hside, husr, hdispatch, rfl⟩ := request_spec hs h
  have hplaces : Places srv₀ ⟨ld transNum, p.userCmd, u, now, quote⟩ cUser p.side (srv', reply) := by
    unfold Command.dispatch at hdispatch
    split at hdispatch
    · cases p <;> cases hdispatch <;> exact .inl ⟨rfl, rfl⟩
    · cases p <;> cases hdispatch <;> exact .inl ⟨rfl, rfl⟩
    · cases p with
      | buy => exact Option.some.inj hdispatch ▸ places_buy _ _
      | sell => exact Option.some.inj hdispatch ▸ places_sell _ _
    · cases hdispatch
  rcases hplaces with ⟨hsame, hrefused⟩ | ⟨usr', hset, ⟨d, data, rfl⟩, hordered⟩
  · have husr' : srv'.user u = some cUser := by rw [hsame, husr]
    refine ⟨fun usr h => ?_, .inl ⟨responseArray_refused _ _ hrefused, ?_⟩⟩
    · rw [husr'] at h
      exact Option.some.inj h ▸ hsound
    · rw [Server.buysell_eq husr', hside]
  · have husr' : srv'.user u = some usr' := by rw [hset, Function.update_self]
    refine ⟨fun usr h => ?_, .inr ⟨responseArray_succ _ _ d data, ?_⟩⟩
    · rw [husr'] at h
      cases h
      refine ⟨hordered.usTree ▸ hsound.us, ?_, fun hsell st hst => ?_⟩
      · rw [hordered.buysell]
        cases p
        · exact .inr (.inl rfl)
        · exact .inr (.inr rfl)
      · rw [hordered.usTree]
        exact hordered.held (hordered.buysell ▸ hsell) st hst
    · rw [Server.buysell_eq husr', hordered.buysell]

/-- A commit and a cancel clear an order that is pending, whatever is answered. -/
theorem request_settle (p : Page) (hs : srv.SoundFor u) (hside : srv.buysell u = p.side)
    (hcmd : userCmd = p.commitCmd ∨ userCmd = p.cancelCmd)
    (h : request w u srv transNum userCmd none now quote = some (srv', response)) :
    srv'.SoundFor u ∧ srv'.buysell u = 0 := by
  obtain ⟨srv₀, cUser, reply, hsound, hbuysell, husr, hdispatch, rfl⟩ := request_spec hs h
  have hclears : Clears srv₀ ⟨ld transNum, userCmd, u, now, quote⟩ cUser p.side (srv', reply) := by
    rcases hcmd with rfl | rfl <;> cases p
    · exact clears_commitBuy hdispatch
    · exact clears_commitSell hdispatch
    · exact Option.some.inj hdispatch ▸ clears_cancelOrder 1
    · exact Option.some.inj hdispatch ▸ clears_cancelOrder (-1)
  rcases hclears with ⟨-, hnot⟩ | ⟨usr', hset, hzero, hholds⟩
  · exact absurd (hbuysell.trans hside) (hnot hsound)
  · have husr' : srv'.user u = some usr' := by rw [hset, Function.update_self]
    refine ⟨fun usr h => ?_, by rw [Server.buysell_eq husr', hzero]⟩
    rw [husr'] at h
    cases h
    exact ⟨(hholds hsound.us).1, .inl hzero, fun hsell => by rw [hzero] at hsell; cases hsell⟩

end

/-! ### Runs -/

theorem pending_setPending (ses : Session) (x : ℤ) (p p' : Page) :
    (ses.setPending x p).pending p' = if p' = p then some x else ses.pending p' := by
  cases p <;> cases p' <;> rfl

theorem side_inj {p p' : Page} (h : p.side = p'.side) : p = p' := by
  cases p <;> cases p' <;> first | rfl | exact absurd h (by decide)

theorem side_ne_zero (p : Page) : (0 : ℤ) ≠ p.side := by cases p <;> decide

/-- No order is pending for the session. -/
def Market.Idle (s : Market) : Prop := ∀ p, s.pending p ≠ some 1

instance (s : Market) : Decidable s.Idle :=
  decidable_of_iff (s.pending .buy ≠ some 1 ∧ s.pending .sell ≠ some 1)
    ⟨fun h p => by cases p; exacts [h.1, h.2], fun h => ⟨h .buy, h .sell⟩⟩

/-- A logout finds no order pending. -/
def Calm (s : Market) : Action → Prop
  | .logout => s.Idle
  | _ => True

instance (s : Market) : ∀ a, Decidable (Calm s a)
  | .logout => inferInstanceAs (Decidable s.Idle)
  | .order .. | .commit .. | .cancel .. | .login | .other _ => .isTrue trivial

namespace Market
variable {w : ℤ → ℤ} {numberFormat : CStr → Option CStr} {u : UserID} {s s' : Market}
  {ses : Session} {p : Page}

theorem Agree.of_eq (h : s.Agree u) (hp : ∀ p, s'.pending p = s.pending p)
    (hb : s'.server.buysell u = s.server.buysell u) (hs : s'.server.SoundFor u) : s'.Agree u where
  inStep p := by
    rw [InStep, hp, hb]
    exact h.inStep p
  sound := hs

theorem Agree.idle (hp : s'.Idle) (hb : ∀ p : Page, s'.server.buysell u ≠ p.side)
    (hs : s'.server.SoundFor u) : s'.Agree u :=
  ⟨fun p => ⟨fun h => absurd h (hp p), fun h => absurd h (hb p)⟩, hs⟩

theorem Agree.order {stockid amount : CStr} {now : ℤ} {quote : Quote} (h : s.Agree u)
    (hses : ∀ p, s.pending p = ses.pending p)
    (hstep : s.order w numberFormat u ses p stockid amount now quote = some s') : s'.Agree u := by
  have hkeep : ({ s with session := some ses } : Market).Agree u :=
    h.of_eq (fun p => (hses p).symm) rfl h.sound
  simp only [Market.order] at hstep
  split_ifs at hstep with hfree
  · have hfree : ∀ p, ses.pending p ≠ some 1 := fun p => by
      cases p
      · exact hfree.1
      · exact hfree.2
    have hnone : ∀ p : Page, s.server.buysell u ≠ p.side := fun p hp =>
      hfree p (hses p ▸ (h.inStep p).mpr hp)
    split at hstep
    · cases hstep
      exact hkeep
    · obtain ⟨⟨server, response⟩, hreq, hnext⟩ := Option.map_eq_some_iff.mp hstep
      obtain ⟨hsound, ⟨hfail, hb⟩ | ⟨hsucc, hb⟩⟩ := request_order p h.sound hreq
      · rw [hfail, if_neg (by decide)] at hnext
        subst hnext
        refine .idle (fun p' hp' => ?_) (fun p' => hb ▸ hnone p') hsound
        change (ses.setPending 0 p).pending p' = some 1 at hp'
        rw [pending_setPending] at hp'
        split_ifs at hp'
        · cases hp'
        · exact hfree p' hp'
      · rw [hsucc, if_pos rfl] at hnext
        subst hnext
        refine ⟨fun p' => ?_, hsound⟩
        change (Session.setPending _ 1 p).pending p' = some 1 ↔ server.buysell u = p'.side
        rw [pending_setPending, hb]
        split_ifs with hp'
        · exact ⟨fun _ => by rw [hp'], fun _ => rfl⟩
        · exact ⟨fun hother => absurd hother (hfree p'), fun hside => absurd (side_inj hside).symm hp'⟩
  · cases hstep
    exact hkeep

theorem Agree.settle {userCmd : CStr} {now : ℤ} (h : s.Agree u)
    (hses : ∀ p, s.pending p = ses.pending p) (hp : ses.pending p = some 1)
    (hcmd : userCmd = p.commitCmd ∨ userCmd = p.cancelCmd)
    (hstep : s.settle w u ses p userCmd now = some s') : s'.Agree u := by
  obtain ⟨⟨server, response⟩, hreq, rfl⟩ := Option.map_eq_some_iff.mp hstep
  have hside := (h.inStep p).mp (hses p ▸ hp)
  obtain ⟨hsound, hzero⟩ := request_settle p h.sound hside hcmd hreq
  refine .idle (fun p' hp' => ?_) (fun p' => hzero ▸ side_ne_zero p') hsound
  change (ses.settled p).pending p' = some 1 at hp'
  have hset : (ses.settled p).pending p' = (ses.setPending 0 p).pending p' := by cases p' <;> rfl
  rw [hset, pending_setPending] at hp'
  split_ifs at hp' with hsame
  · cases hp'
  -- the other page has no order, since the server has one of this page
  · exact hsame (side_inj (((h.inStep p').mp (hses p' ▸ hp')).symm.trans hside))

theorem Agree.act {a : Action} (h : s.Agree u) (hcalm : Calm s a)
    (hstep : Web.act w numberFormat u s a = some s') : s'.Agree u := by
  have htick : ∀ {ses}, s.session = some ses →
      ∀ p, s.pending p = ({ ses with transNum := ses.transNum + 1 } : Session).pending p :=
    fun hses p => by rw [Market.pending, hses]; cases p <;> rfl
  cases a with
  | order p stockid amount now quote =>
    obtain ⟨ses, hses, hstep⟩ := Option.bind_eq_some_iff.mp hstep
    exact h.order (htick hses) hstep
  | commit p time now =>
    obtain ⟨ses, hses, hstep⟩ := Option.bind_eq_some_iff.mp hstep
    rw [Market.commit] at hstep
    split_ifs at hstep with hin hlate
    · exact h.settle (htick hses) hin.1 (.inl rfl) hstep
    · exact h.settle (htick hses) hlate.1 (.inr rfl) hstep
    · cases hstep
      exact h.of_eq (fun p => (htick hses p).symm) rfl h.sound
  | cancel p now =>
    obtain ⟨ses, hses, hstep⟩ := Option.bind_eq_some_iff.mp hstep
    rw [Market.cancel] at hstep
    split_ifs at hstep with hp
    · exact h.settle (htick hses) hp (.inr rfl) hstep
    · cases hstep
      exact h.of_eq (fun p => (htick hses p).symm) rfl h.sound
  | logout =>
    cases hstep
    exact .idle (fun p hp => by cases hp) (fun p hb => hcalm p ((h.inStep p).mpr hb)) h.sound
  | login =>
    cases hstep
    refine h.of_eq (fun p => ?_) rfl h.sound
    rw [Market.pending, Market.pending]
    cases s.session with
    | none => cases p <;> rfl
    | some ses => cases p <;> rfl
  | other e =>
    simp only [Web.act] at hstep
    split_ifs at hstep with hspares
    obtain ⟨server, hserver, rfl⟩ := Option.map_eq_some_iff.mp hstep
    have hsame := step_sameOrders hserver hspares
    exact h.of_eq (fun p => rfl) hsame.buysell (hsame.sound h.sound)

end Market

section
variable {w : ℤ → ℤ} {numberFormat : CStr → Option CStr} {u : UserID}

/-- In a run that never logs out while an order is pending, the session and the server agree after each
    action, and no page refuses an order that is pending. -/
theorem session_in_step {as : List Action} {s : Market} (hrun : exec (act w numberFormat u) .init as = some s)
    (hcalm : Along (act w numberFormat u) Calm .init as) (p : Page) : s.InStep u p ∧ ¬ s.Refused u p := by
  have hstart : Market.init.Agree u := .idle (fun p hp => by cases hp) (fun p => side_ne_zero p)
    fun usr h => by cases h
  have hagree := exec_inv_along (fun _ _ _ hi hok hs => Market.Agree.act hi hok hs) as _ s hstart hcalm hrun
  exact ⟨hagree.inStep p, fun ⟨hside, hnot⟩ => hnot ((hagree.inStep p).mpr hside)⟩

end

/-! ### A logout between a buy and its commit -/

/-- A user who is new has too little for a first buy, gets 100.00, and buys. -/
def buyOnce : List Action :=
  let buy := .order .buy "ABC".toList "50.00".toList 100000 ⟨100, 100000⟩
  [.login, buy, .other (commandAt 100000 100 "ADD" "100.00"), buy]

/-- The user logs out, and in again: the order is pending, buy.php does not cancel it, and the next buy is
    refused by the server. -/
theorem logout_refuses : ∃ s, exec (act wrap64 some aUser) .init (buyOnce ++ [.logout, .login]) = some s ∧
    s.Refused aUser .buy ∧ ¬ s.InStep aUser .buy ∧
    (act wrap64 some aUser s (.cancel .buy 100000)).map (·.server.buysell aUser) = some 1 ∧
    (act wrap64 some aUser s (.order .buy "ABC".toList "50.00".toList 100000 ⟨100, 100000⟩)).map
      (fun s => (s.pending .buy, s.server.buysell aUser)) = some (some 0, 1) := by
  refine ⟨_, rfl, ⟨by decide +kernel, by decide +kernel⟩, ?_, by decide +kernel, by decide +kernel⟩
  exact fun h => absurd (h.mpr (by decide +kernel)) (by decide +kernel)

theorem session_in_step_cancelled : ∃ s,
    exec (act wrap64 some aUser) .init (buyOnce ++ [.cancel .buy 100000, .logout]) = some s ∧
      ∀ p, s.InStep aUser p ∧ ¬ s.Refused aUser p := by
  have hcalm : Along (act wrap64 some aUser) Calm .init (buyOnce ++ [.cancel .buy 100000, .logout]) := by
    decide +kernel
  exact ⟨_, rfl, fun p => session_in_step rfl hcalm p⟩

end TradeC.Web
