import TradeC.Simulation

/-! The exact results a step computes.

    `arith s e` lists the results of the additions, subtractions and multiplications that the source
    stores while it does the event, as integers. Where `w` leaves all of them as they are, the step
    is the step of exact arithmetic; for `wrap64` that means that no result leaves 64 bits. -/

namespace TradeC

namespace Arith

def digits : CStr → ℤ → List ℤ
  | [], _ => []
  | c :: cs, acc =>
    if ord c < 48 ∨ ord c > 57 then []
    else (10 * acc + ord c - 48) :: digits cs (10 * acc + ord c - 48)

def priceDec (str : CStr) (dec : ℕ) : List ℤ :=
  digits (str.take (str.length - dec)) 0 ++ digits (str.drop (str.length - dec + 1)) 0 ++
    match digitLoop id (str.take (str.length - dec)) 0,
      digitLoop id (str.drop (str.length - dec + 1)) 0 with
    | some dollars, some cents => [dollars * 100 + cents]
    | _, _ => []

def price (str : CStr) : List ℤ :=
  match str with
  | [a, p, c] =>
    if (ord a > 48 ∨ ord a < 57) ∧ (ord c > 48 ∨ ord c < 57) ∧ p = '.' then
      [(ord a - 48) * 100 + (ord c - 48)]
    else []
  | _ =>
    if str.length < 4 then []
    else if str[str.length - 2]? = some '.' then priceDec str 2
    else if str[str.length - 3]? ≠ some '.' then []
    else priceDec str 3

def takeStock (usTree : Trie UserStock) (stockID : StockID) (numStock : ℤ) : List ℤ :=
  match getUserStock usTree stockID with
  | none => []
  | some cUserStock => [cUserStock.num + numStock]

variable (s : Server) (c : Cmd) (cUser : User)

def add (amt : CStr) : List ℤ :=
  price amt ++ if str2price id amt = -1 then [] else [cUser.balance + str2price id amt]

def buy (stk amt : CStr) : List ℤ :=
  match toStockID stk with
  | none => []
  | some stockID =>
    price amt ++
      let prc := str2price id amt
      let s := ((s.lenq (c.logLine stk spc amt)).findStock stockID).freshQuote c stockID
      let quotePrice := (s.stock stockID).price
      if prc = -1 then []
      else if cUser.buysell ≠ 0 then []
      else if cUser.balance < prc then []
      else if quotePrice < 1 then []
      else if prc.tdiv quotePrice = 0 then []
      else [quotePrice * prc.tdiv quotePrice]

def commitBuy : List ℤ :=
  if cUser.buysell ≠ 1 then []
  else if c.now - cUser.promptTime > quoteTo then []
  else
    (cUser.balance - cUser.reserve) ::
      match cUser.stockObj with
      | none => []
      | some stockID => takeStock cUser.usTree stockID cUser.no

def sell (stk amt : CStr) : List ℤ :=
  match toStockID stk with
  | none => []
  | some stockID =>
    price amt ++
      let prc := str2price id amt
      let s := (s.lenq (c.logLine stk spc amt)).findStock stockID
      match getUserStock cUser.usTree stockID with
      | none => []
      | some cUserStock =>
        let quotePrice := ((s.freshQuote c stockID).stock stockID).price
        if prc = -1 then []
        else if cUserStock.num = 0 then []
        else if cUser.buysell ≠ 0 then []
        else if quotePrice < 1 then []
        else [prc.tdiv quotePrice + 1, quotePrice * sellNo cUserStock.num prc quotePrice]

def commitSell : List ℤ :=
  if cUser.buysell ≠ -1 then []
  else if c.now - cUser.promptTime > quoteTo then []
  else
    match cUser.stockObj with
    | none => []
    | some stockID =>
      match getUserStock cUser.usTree stockID with
      | none => []
      | some cUserStock => [cUser.balance + cUser.reserve, cUserStock.num - cUser.no]

def setBuyAmount (stk amt : CStr) : List ℤ :=
  match toStockID stk with
  | none => []
  | some stockID =>
    price amt ++
      let prc := str2price id amt
      let s := (s.lenq (c.logLine stk spc amt)).findStock stockID
      if prc = -1 then []
      else if cUser.buysell ≠ 0 then []
      else if cUser.balance < prc then []
      else
        match s.mem.getTrigger c.userID stockID .b with
        | some _ => []
        | none => [cUser.balance - prc]

def cancelSetBuy (stk : CStr) : List ℤ :=
  match toStockID stk with
  | none => []
  | some stockID =>
    let s := (s.lenq (c.logLine stk spc spc)).findStock stockID
    match (s.mem.getTrigger c.userID stockID .b).bind s.mem.obj with
    | none => []
    | some cTrigger => [cUser.balance + cTrigger.amount]

/-- SET_BUY_TRIGGER, SET_SELL_TRIGGER and SET_SELL_AMOUNT only read the amount. -/
def readAmount (stk amt : CStr) : List ℤ :=
  match toStockID stk with
  | none => []
  | some _ => price amt

/-- A command, by its name and fields. -/
def command (comm : List CStr) : List ℤ :=
  match comm with
  | [] =>
    if c.userCmd = "COMMIT_BUY".toList then commitBuy c cUser
    else if c.userCmd = "CANCEL_BUY".toList then []
    else if c.userCmd = "COMMIT_SELL".toList then commitSell c cUser
    else []
  | [a] =>
    if c.userCmd = "ADD".toList then add cUser a
    else if c.userCmd = "QUOTE".toList then []
    else if c.userCmd = "CANCEL_SET_BUY".toList then cancelSetBuy s c cUser a
    else []
  | [a, b] =>
    if c.userCmd = "BUY".toList then buy s c cUser a b
    else if c.userCmd = "SELL".toList then sell s c cUser a b
    else if c.userCmd = "SET_BUY_AMOUNT".toList then setBuyAmount s c cUser a b
    else if c.userCmd = "SET_BUY_TRIGGER".toList then readAmount a b
    else if c.userCmd = "SET_SELL_AMOUNT".toList then readAmount a b
    else if c.userCmd = "SET_SELL_TRIGGER".toList then readAmount a b
    else []
  | _ => []

def fireBuy (cTrigger : Trigger) (quotePrice : ℤ) : List ℤ :=
  let numStock := cTrigger.amount.tdiv quotePrice
  if numStock = 0 then []
  else
    takeStock cUser.usTree cTrigger.stockObj numStock ++
      [quotePrice * numStock, cUser.balance + cTrigger.amount,
        cUser.balance + cTrigger.amount - quotePrice * numStock]

def fireSell (cTrigger : Trigger) (quotePrice : ℤ) : List ℤ :=
  match getUserStock cUser.usTree cTrigger.stockObj with
  | none => []
  | some cUserStock =>
    if cUserStock.num = 0 then []
    else
      let numStock := sellNo cUserStock.num cTrigger.amount quotePrice
      [cTrigger.amount.tdiv quotePrice + 1, quotePrice * numStock, cUserStock.num - numStock,
        cUser.balance + quotePrice * numStock]

end Arith

def arith (s : Server) : Event → List ℤ
  | .command c commStr =>
    match s.user c.userID with
    | none => []
    | some cUser => Arith.command s c cUser (delimSepNoCpy commStr ',')
  | .examine t quotePrice _ =>
    match s.mem.obj t with
    | none => []
    | some cTrigger =>
      match s.user cTrigger.userObj with
      | none => []
      | some cUser =>
        match cTrigger.type with
        | .b => if quotePrice < cTrigger.trig then Arith.fireBuy cUser cTrigger quotePrice else []
        | .s =>
          if quotePrice > cTrigger.trig ∧ cTrigger.trig ≠ 0 then
            Arith.fireSell cUser cTrigger quotePrice
          else []
  | _ => []

/-- `w` stores each exact result of the step as it is. -/
def Fits (w : ℤ → ℤ) (s : Server) (e : Event) : Prop := ∀ x ∈ arith s e, w x = x

instance (w : ℤ → ℤ) (s : Server) (e : Event) : Decidable (Fits w s e) :=
  inferInstanceAs (Decidable (∀ x ∈ arith s e, w x = x))

/-! ### Prices -/

variable {w : ℤ → ℤ}

theorem digitLoop_fits : ∀ {cs : CStr} {acc : ℤ}, (∀ x ∈ Arith.digits cs acc, w x = x) →
    digitLoop w cs acc = digitLoop id cs acc := by
  intro cs
  induction cs with
  | nil =>
    intro _ _
    rfl
  | cons c cs ih =>
    intro acc h
    rw [digitLoop, digitLoop]
    split_ifs with hc
    · rfl
    · rw [Arith.digits, if_neg hc] at h
      rw [h _ List.mem_cons_self, id_eq]
      exact ih fun x hx => h x (List.mem_cons_of_mem _ hx)

theorem str2priceDec_fits {str : CStr} {dec : ℕ} (h : ∀ x ∈ Arith.priceDec str dec, w x = x) :
    str2priceDec w str dec = str2priceDec id str dec := by
  unfold Arith.priceDec at h
  simp only [List.forall_mem_append] at h
  obtain ⟨⟨hd, hc⟩, hsum⟩ := h
  unfold str2priceDec
  rw [digitLoop_fits hd, digitLoop_fits hc]
  cases hdol : digitLoop id (str.take (str.length - dec)) 0 with
  | none => rfl
  | some dollars =>
    cases hcen : digitLoop id (str.drop (str.length - dec + 1)) 0 with
    | none => rfl
    | some cents => exact hsum _ (by simp [hdol, hcen])

theorem str2price_fits {str : CStr} (h : ∀ x ∈ Arith.price str, w x = x) :
    str2price w str = str2price id str := by
  unfold str2price
  split
  · unfold Arith.price at h
    split_ifs with hc
    · exact h _ (by simp [hc])
    · rfl
  · rename_i hne
    unfold Arith.price at h
    split at h
    · exact absurd rfl (hne _ _ _)
    · split_ifs at h ⊢
      · rfl
      · exact str2priceDec_fits h
      · rfl
      · exact str2priceDec_fits h

/-! ### Commands and firings -/

theorem takeStock_fits {u : UserID} {us : Trie UserStock} {st : StockID} {n : ℤ}
    (h : ∀ x ∈ Arith.takeStock us st n, w x = x) : takeStock w u us st n = takeStock id u us st n := by
  unfold takeStock
  unfold Arith.takeStock at h
  cases hs : getUserStock us st with
  | none => rfl
  | some uso =>
    simp only [hs, List.forall_mem_singleton] at h
    simp only [h, id_eq]

section Commands
variable {s : Server} {c : Cmd} {cUser : User}

theorem add_fits {amt : CStr} (h : ∀ x ∈ Arith.add cUser amt, w x = x) :
    Command.add w s c cUser amt = Command.add id s c cUser amt := by
  unfold Arith.add at h
  rw [List.forall_mem_append] at h
  obtain ⟨hread, h⟩ := h
  unfold Command.add
  rw [str2price_fits hread]
  dsimp only
  split_ifs at h ⊢ with hprc
  · rfl
  · rw [List.forall_mem_singleton] at h
    simp only [h, id_eq]

theorem buy_fits {stk amt : CStr} (h : ∀ x ∈ Arith.buy s c cUser stk amt, w x = x) :
    Command.buy w s c cUser stk amt = Command.buy id s c cUser stk amt := by
  unfold Arith.buy at h
  unfold Command.buy
  cases hst : toStockID stk with
  | none => rfl
  | some st =>
    simp only [hst, List.forall_mem_append] at h
    obtain ⟨hread, h⟩ := h
    rw [str2price_fits hread]
    dsimp only
    split_ifs at h ⊢
    all_goals first | rfl | skip
    rw [List.forall_mem_singleton] at h
    simp only [h, id_eq]

theorem commitBuy_fits (h : ∀ x ∈ Arith.commitBuy c cUser, w x = x) :
    Command.commitBuy w s c cUser = Command.commitBuy id s c cUser := by
  unfold Arith.commitBuy at h
  unfold Command.commitBuy
  dsimp only
  split_ifs at h ⊢
  · rfl
  · rfl
  · cases hst : cUser.stockObj with
    | none => rfl
    | some st =>
      simp only [hst, List.forall_mem_cons] at h
      simp only [h.1, takeStock_fits h.2, id_eq]

theorem sell_fits {stk amt : CStr} (h : ∀ x ∈ Arith.sell s c cUser stk amt, w x = x) :
    Command.sell w s c cUser stk amt = Command.sell id s c cUser stk amt := by
  unfold Arith.sell at h
  unfold Command.sell
  cases hst : toStockID stk with
  | none => rfl
  | some st =>
    simp only [hst, List.forall_mem_append] at h
    obtain ⟨hread, h⟩ := h
    rw [str2price_fits hread]
    dsimp only
    by_cases hprc : str2price id amt = -1
    · rw [if_pos hprc, if_pos hprc]
    rw [if_neg hprc, if_neg hprc]
    cases hs : getUserStock cUser.usTree st with
    | none => rfl
    | some uso =>
      simp only [hs, if_neg hprc] at h
      dsimp only
      by_cases hnum : uso.num = 0
      · rw [if_pos hnum, if_pos hnum]
      by_cases hidle : cUser.buysell ≠ 0
      · rw [if_neg hnum, if_neg hnum, if_pos hidle, if_pos hidle]
      by_cases hprice :
          ((((s.lenq (c.logLine stk spc amt)).findStock st).freshQuote c st).stock st).price < 1
      · rw [if_neg hnum, if_neg hnum, if_neg hidle, if_neg hidle, if_pos hprice, if_pos hprice]
      simp only [if_neg hnum, if_neg hidle, if_neg hprice, List.forall_mem_cons] at h
      obtain ⟨hno, hsell, _⟩ := h
      simp only [if_neg hnum, if_neg hidle, if_neg hprice, hno, sellNo_eq, hsell, id_eq]

theorem commitSell_fits (h : ∀ x ∈ Arith.commitSell c cUser, w x = x) :
    Command.commitSell w s c cUser = Command.commitSell id s c cUser := by
  unfold Arith.commitSell at h
  unfold Command.commitSell
  dsimp only
  split_ifs at h ⊢
  · rfl
  · rfl
  · cases hst : cUser.stockObj with
    | none => rfl
    | some st =>
      cases hs : getUserStock cUser.usTree st with
      | none => simp only [hs]
      | some uso =>
        simp only [hst, hs, List.forall_mem_cons] at h
        obtain ⟨hbal, hnum, _⟩ := h
        simp only [hs, hbal, hnum, id_eq]

theorem setBuyAmount_fits {stk amt : CStr}
    (h : ∀ x ∈ Arith.setBuyAmount s c cUser stk amt, w x = x) :
    Command.setBuyAmount w s c cUser stk amt = Command.setBuyAmount id s c cUser stk amt := by
  unfold Arith.setBuyAmount at h
  unfold Command.setBuyAmount
  cases hst : toStockID stk with
  | none => rfl
  | some st =>
    simp only [hst, List.forall_mem_append] at h
    obtain ⟨hread, h⟩ := h
    rw [str2price_fits hread]
    dsimp only
    split_ifs at h ⊢
    all_goals first | rfl | skip
    cases hget : ((s.lenq (c.logLine stk spc amt)).findStock st).mem.getTrigger c.userID st .b with
    | some t => rfl
    | none =>
      simp only [hget, List.forall_mem_singleton] at h
      simp only [h, id_eq]

theorem cancelSetBuy_fits {stk : CStr} (h : ∀ x ∈ Arith.cancelSetBuy s c cUser stk, w x = x) :
    Command.cancelSetBuy w s c cUser stk = Command.cancelSetBuy id s c cUser stk := by
  unfold Arith.cancelSetBuy at h
  unfold Command.cancelSetBuy
  cases hst : toStockID stk with
  | none => rfl
  | some st =>
    simp only [hst] at h
    dsimp only
    cases hget : ((s.lenq (c.logLine stk spc spc)).findStock st).mem.getTrigger c.userID st .b with
    | none => rfl
    | some t =>
      simp only [hget, Option.bind_some] at h
      dsimp only
      cases htr : ((s.lenq (c.logLine stk spc spc)).findStock st).mem.obj t with
      | none => rfl
      | some tr =>
        simp only [htr, List.forall_mem_singleton] at h
        simp only [Option.bind_some, h, id_eq]

theorem setTrigger_fits {type : TType} {stk amt : CStr}
    (h : ∀ x ∈ Arith.readAmount stk amt, w x = x) :
    Command.setTrigger w s c type stk amt = Command.setTrigger id s c type stk amt := by
  unfold Arith.readAmount at h
  unfold Command.setTrigger
  cases hst : toStockID stk with
  | none => rfl
  | some st =>
    simp only [hst] at h
    rw [str2price_fits h]

theorem setSellAmount_fits {stk amt : CStr} (h : ∀ x ∈ Arith.readAmount stk amt, w x = x) :
    Command.setSellAmount w s c cUser stk amt = Command.setSellAmount id s c cUser stk amt := by
  unfold Arith.readAmount at h
  unfold Command.setSellAmount
  cases hst : toStockID stk with
  | none => rfl
  | some st =>
    simp only [hst] at h
    rw [str2price_fits h]

theorem dispatch_fits {comm : List CStr} (h : ∀ x ∈ Arith.command s c cUser comm, w x = x) :
    Command.dispatch w s c cUser comm = Command.dispatch id s c cUser comm := by
  unfold Command.dispatch
  match comm, h with
  | [], h =>
    dsimp only [Arith.command] at h
    refine ite_congr rfl (fun h₁ => ?_) fun h₁ => ite_congr rfl (fun _ => rfl) fun h₂ =>
      ite_congr rfl (fun h₃ => ?_) fun _ => rfl
    · rw [if_pos h₁] at h
      exact commitBuy_fits h
    · rw [if_neg h₁, if_neg h₂, if_pos h₃] at h
      exact commitSell_fits h
  | [a], h =>
    dsimp only [Arith.command] at h
    refine ite_congr rfl (fun h₁ => ?_) fun h₁ => ite_congr rfl (fun _ => rfl) fun h₂ =>
      ite_congr rfl (fun h₃ => ?_) fun _ => rfl
    · rw [if_pos h₁] at h
      rw [add_fits h]
    · rw [if_neg h₁, if_neg h₂, if_pos h₃] at h
      exact cancelSetBuy_fits h
  | [a, b], h =>
    dsimp only [Arith.command] at h
    refine ite_congr rfl (fun h₁ => ?_) fun h₁ => ite_congr rfl (fun h₂ => ?_) fun h₂ =>
      ite_congr rfl (fun h₃ => ?_) fun h₃ => ite_congr rfl (fun h₄ => ?_) fun h₄ =>
      ite_congr rfl (fun h₅ => ?_) fun h₅ => ite_congr rfl (fun h₆ => ?_) fun _ => rfl
    · rw [if_pos h₁] at h
      rw [buy_fits h]
    · rw [if_neg h₁, if_pos h₂] at h
      rw [sell_fits h]
    · rw [if_neg h₁, if_neg h₂, if_pos h₃] at h
      rw [setBuyAmount_fits h]
    · rw [if_neg h₁, if_neg h₂, if_neg h₃, if_pos h₄] at h
      rw [Command.setBuyTrigger, Command.setBuyTrigger, setTrigger_fits h]
    · rw [if_neg h₁, if_neg h₂, if_neg h₃, if_neg h₄, if_pos h₅] at h
      rw [setSellAmount_fits h]
    · rw [if_neg h₁, if_neg h₂, if_neg h₃, if_neg h₄, if_neg h₅, if_pos h₆] at h
      rw [Command.setSellTrigger, Command.setSellTrigger, setTrigger_fits h]
  | _ :: _ :: _ :: _, _ => rfl

end Commands

section Firing
variable {s : Server} {t : TrigID} {tr : Trigger} {cUser : User} {p now : ℤ}

theorem fireBuy_fits (h : ∀ x ∈ Arith.fireBuy cUser tr p, w x = x) :
    Sweep.fireBuy w s t tr cUser p now = Sweep.fireBuy id s t tr cUser p now := by
  unfold Arith.fireBuy at h
  unfold Sweep.fireBuy
  dsimp only at h ⊢
  by_cases hno : tr.amount.tdiv p = 0
  · rw [if_pos hno, if_pos hno]
  rw [if_neg hno, List.forall_mem_append] at h
  obtain ⟨htake, h⟩ := h
  simp only [List.forall_mem_cons] at h
  obtain ⟨hbuy, hbal, hrest, _⟩ := h
  simp only [if_neg hno, takeStock_fits htake, hbuy, hbal, hrest, id_eq]

theorem fireSell_fits (h : ∀ x ∈ Arith.fireSell cUser tr p, w x = x) :
    Sweep.fireSell w s t tr cUser p now = Sweep.fireSell id s t tr cUser p now := by
  unfold Arith.fireSell at h
  unfold Sweep.fireSell
  dsimp only
  cases hs : getUserStock cUser.usTree tr.stockObj with
  | none => rfl
  | some uso =>
    simp only [hs] at h
    dsimp only
    by_cases hnum : uso.num = 0
    · rw [if_pos hnum, if_pos hnum]
    simp only [if_neg hnum, List.forall_mem_cons] at h
    obtain ⟨hno, hsell, hleft, hbal, _⟩ := h
    simp only [if_neg hnum, hno, sellNo_eq, hsell, hleft, hbal, id_eq]

end Firing

/-- A step all of whose results fit is the step of exact arithmetic. -/
theorem step_fits {s : Server} {e : Event} (hw : s.WF) (h : Fits w s e) :
    step w s e = step id s e := by
  unfold Fits arith at h
  cases e with
  | connect u =>
    simp only [step]
    split_ifs with hu
    · rfl
    · have hnone : s.user u = none := by simpa using hu
      rw [addUser_fresh w hw hnone, addUser_fresh id hw hnone]
  | command c commStr =>
    simp only [step, commandHandler]
    cases husr : s.user c.userID with
    | none => rfl
    | some cUser =>
      simp only [husr] at h
      rw [Option.bind_some, Option.bind_some, dispatch_fits h]
  | quote st q => rfl
  | examine t p now =>
    simp only [step, Sweep.examine]
    cases htr : s.mem.obj t with
    | none => rfl
    | some tr =>
      simp only [htr] at h
      cases husr : s.user tr.userObj with
      | none => simp only [husr, Option.bind_some]; rfl
      | some cUser =>
        simp only [husr] at h
        simp only [Option.bind_some, husr]
        cases hty : tr.type with
        | b =>
          simp only [hty] at h
          by_cases hpt : p < tr.trig
          · rw [if_pos hpt] at h
            simp only [fireBuy_fits h]
          · simp only [if_neg hpt]
        | s =>
          simp only [hty] at h
          by_cases hpt : p > tr.trig ∧ tr.trig ≠ 0
          · rw [if_pos hpt] at h
            simp only [fireSell_fits h]
          · simp only [if_neg hpt]

end TradeC
