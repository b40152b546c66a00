import Mathlib.Algebra.Order.Ring.Rat
import Mathlib.Data.List.Basic

/-! The rows of the brokerage database and the values of the exchange gateway.
`Decimal` amounts are exact rationals and a UUID is its 128 bits. -/
namespace CryptoBrokerage

abbrev Uuid := BitVec 128

def hexDigit (digit : Nat) : Char := Char.ofNat (if digit < 10 then 48 + digit else 87 + digit)

theorem hexDigit_injective : ∀ first < 16, ∀ second < 16, hexDigit first = hexDigit second → first = second := by
  decide

theorem hexDigit_ne : ∀ digit < 16, hexDigit digit ≠ '-' := by decide

def hexDigits (id : Uuid) : List Char :=
  (List.range 32).map (fun place => hexDigit (id.toNat / 16^(31 - place) % 16))

def hyphenate (digits : List Char) : List Char :=
  digits.take 8 ++ '-' :: (digits.drop 8).take 4 ++ '-' :: (digits.drop 12).take 4 ++
    '-' :: (digits.drop 16).take 4 ++ '-' :: digits.drop 20

/-- The UUID as `str` renders it: 32 hexadecimal digits in five groups. -/
def str (id : Uuid) : String := String.ofList (hyphenate (hexDigits id))

theorem filter_hyphenate {digits : List Char} (plain : ∀ char ∈ digits, char ≠ '-') :
    (hyphenate digits).filter (· ≠ '-') = digits := by
  have kept (part : List Char) (inside : part ⊆ digits) : part.filter (· ≠ '-') = part :=
    List.filter_eq_self.mpr fun char member => by simpa using plain char (inside member)
  have joined (start count : Nat) :
      (digits.drop start).take count ++ digits.drop (start + count) = digits.drop start := by
    rw [← List.drop_drop,List.take_append_drop]
  have taken (start count : Nat) : (digits.drop start).take count ⊆ digits :=
    fun _ member => List.mem_of_mem_drop (List.mem_of_mem_take member)
  unfold hyphenate
  simp only [List.append_assoc,List.cons_append,List.filter_append]
  rw [kept _ (List.take_subset _ _)]
  simp only [List.filter_append,List.filter_cons,ne_eq,not_true_eq_false,decide_false]
  rw [if_neg (by simp),if_neg (by simp),if_neg (by simp),if_neg (by simp)]
  have third := kept _ (taken 8 4)
  have fourth := kept _ (taken 12 4)
  have fifth := kept _ (taken 16 4)
  have last := kept _ (List.drop_subset 20 digits)
  simp only [ne_eq] at third fourth fifth last
  rw [third,fourth,fifth,last]
  rw [joined 16 4,joined 12 4,joined 8 4,List.take_append_drop]

theorem str_injective : Function.Injective str := by
  intro first second same
  have plain (id : Uuid) : ∀ char ∈ hexDigits id, char ≠ '-' := by
    intro char member
    obtain ⟨place,_,rfl⟩ := List.mem_map.mp member
    exact hexDigit_ne _ (Nat.mod_lt _ (by omega))
  have digits : hexDigits first = hexDigits second := by
    have equal := congrArg (List.filter (· ≠ '-')) (String.ofList_inj.mp same)
    rwa [filter_hyphenate (plain first),filter_hyphenate (plain second)] at equal
  have place (k : Nat) (bound : k < 32) : first.toNat / 16^k % 16 = second.toNat / 16^k % 16 := by
    have equal := List.map_eq_map_iff.mp digits (31 - k) (List.mem_range.mpr (by omega))
    rw [show 31 - (31 - k) = k by omega] at equal
    exact hexDigit_injective _ (Nat.mod_lt _ (by omega)) _ (Nat.mod_lt _ (by omega)) equal
  have low (k : Nat) (bound : k ≤ 32) : first.toNat % 16^k = second.toNat % 16^k := by
    induction k with
    | zero => simp [Nat.mod_one]
    | succ k ih => rw [Nat.mod_pow_succ,Nat.mod_pow_succ,ih (by omega),place k (by omega)]
  have equal := low 32 (le_refl 32)
  have firstBound : first.toNat < 16^32 := first.isLt
  have secondBound : second.toNat < 16^32 := second.isLt
  rw [Nat.mod_eq_of_lt firstBound,Nat.mod_eq_of_lt secondBound] at equal
  exact BitVec.eq_of_toNat_eq equal

/-- Seconds of the Unix epoch. -/
abbrev Timestamp := ℚ

inductive OrderSide
  | buy
  | sell
  deriving DecidableEq, Repr

def OrderSide.value : OrderSide → String
  | .buy => "BUY"
  | .sell => "SELL"

inductive OrderType
  | market
  | limit
  deriving DecidableEq, Repr

def OrderType.value : OrderType → String
  | .market => "MARKET"
  | .limit => "LIMIT"

inductive OrderStatus
  | pending
  | partiallyFilled
  | filled
  | failed
  | cancelled
  deriving DecidableEq, Repr

def OrderStatus.isTerminal (status : OrderStatus) : Bool :=
  status ∈ [.filled,.failed,.cancelled]

inductive KYCStatus
  | pending
  | approved
  | rejected
  deriving DecidableEq, Repr

inductive AccountType
  | fiat
  | crypto
  | reserve
  deriving DecidableEq, Repr

inductive BankAccountStatus
  | pending
  | active
  | inactive
  | rejected
  deriving DecidableEq, Repr

inductive TransactionType
  | deposit
  | withdraw
  | trade
  | fee
  deriving DecidableEq, Repr

inductive TransactionStatus
  | pending
  | processing
  | completed
  | failed
  | reversed
  deriving DecidableEq, Repr

def TransactionStatus.isTerminal (status : TransactionStatus) : Bool :=
  status ∈ [.completed,.failed,.reversed]

structure User where
  id : Uuid
  email : String
  hashedPassword : String
  isActive : Bool
  deriving DecidableEq, Repr

structure UserProfile where
  id : Uuid
  userId : Uuid
  fullName : String
  taxId : Option String
  kycStatus : KYCStatus
  country : String
  deriving DecidableEq, Repr

structure Asset where
  id : Uuid
  symbol : String
  name : String
  deriving DecidableEq, Repr

structure Account where
  id : Uuid
  userId : Uuid
  currency : String
  accountType : AccountType
  deriving DecidableEq, Repr

structure BankAccount where
  id : Uuid
  userId : Uuid
  externalReference : String
  bankName : String
  status : BankAccountStatus
  deriving DecidableEq, Repr

structure Order where
  id : Uuid
  userId : Uuid
  assetId : Uuid
  side : OrderSide
  orderType : OrderType
  amount : ℚ
  filledAmount : ℚ
  price : Option ℚ
  status : OrderStatus
  idempotencyKey : String
  createdAt : Timestamp
  deriving DecidableEq, Repr

structure TradeExecution where
  id : Uuid
  orderId : Uuid
  executedPrice : ℚ
  executedAmount : ℚ
  fee : ℚ
  timestamp : Timestamp
  externalFillId : Option String
  deriving DecidableEq, Repr

structure Position where
  id : Uuid
  userId : Uuid
  assetId : Uuid
  quantity : ℚ
  averagePrice : ℚ
  deriving DecidableEq, Repr

structure Transaction where
  id : Uuid
  userId : Uuid
  transactionType : TransactionType
  status : TransactionStatus
  referenceId : Option String
  createdAt : Timestamp
  deriving DecidableEq, Repr

structure LedgerEntry where
  id : Uuid
  debitAccountId : Uuid
  creditAccountId : Uuid
  amount : ℚ
  currency : String
  referenceType : String
  referenceId : String
  createdAt : Timestamp
  deriving DecidableEq, Repr

structure FillEvent where
  fillId : String
  price : ℚ
  amount : ℚ
  fee : ℚ
  timestamp : Timestamp
  deriving DecidableEq, Repr

structure OrderSubmission where
  externalOrderId : String
  status : String
  filledAmount : ℚ := 0
  averagePrice : ℚ := 0
  fee : ℚ := 0
  fills : List FillEvent := []
  deriving DecidableEq, Repr

structure SubmittedOrder where
  clientOrderId : String
  symbol : String
  side : String
  orderType : String
  amount : ℚ
  price : Option ℚ
  deriving DecidableEq, Repr

structure TransferInitiation where
  externalTransferId : String
  status : String
  deriving DecidableEq, Repr

structure InitiatedTransfer where
  externalReference : String
  amount : ℚ
  currency : String
  direction : String
  description : String
  deriving DecidableEq, Repr

structure InstrumentPrice where
  symbol : String
  bid : ℚ
  ask : ℚ
  last : ℚ
  timestamp : Timestamp
  deriving DecidableEq, Repr

/-- The exceptions of the modelled code, and `other` for all that an external
system may raise. -/
inductive Exception
  | authentication (message : String)
  | userAlreadyExists (message : String)
  | accountNotFound (message : String)
  | bankAccountNotFound (message : String)
  | bankAccountAlreadyLinked (message : String)
  | assetNotFound (message : String)
  | insufficientFunds (available required : ℚ) (currency : String)
  | duplicateIdempotencyKey (key : String)
  | invalidOrder (message : String)
  | orderAlreadyFinalized (message : String)
  | ledgerImbalance (message : String)
  | externalGateway (gateway message : String)
  | integrity (constraint : String)
  | data (message : String)
  | invalidRequest (message : String)
  | divisionByZero
  | overflow
  | notImplemented (message : String)
  | value (message : String)
  | requestValidation (fields : List String)
  | validation (model field : String)
  | http (status : Nat) (detail : String)
  | other (message : String)
  deriving DecidableEq, Repr

end CryptoBrokerage
