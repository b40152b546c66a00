import CryptoBrokerage.Repositories

/-! `UserRepository`, and the registration and the linking of bank accounts of
`OnboardingService`. Emails are lowered by `str.lower`, and passwords hashed by
bcrypt, of which only the outcome is known. -/
namespace CryptoBrokerage
open Transaction (Program)

structure Registration where
  email : String
  password : String
  fullName : String
  country : String
  taxId : Option String := none
  deriving DecidableEq, Repr

structure UserRegistrationResult where
  userId : Uuid
  accountId : Uuid
  deriving DecidableEq, Repr

structure BankAccountLink where
  userId : Uuid
  externalReference : String
  bankName : String
  deriving DecidableEq, Repr

structure BankAccountLinkResult where
  bankAccountId : Uuid
  deriving DecidableEq, Repr

namespace UserRepository
variable (lower : String → String)

def getByEmail (email : String) : Action (Option User) := send (.selectUser (lower email))

def existsByEmail (email : String) : Action Bool := do
  let id ← send (.selectUserId (lower email))
  pure id.isSome

def createWithProfile (email hashedPassword fullName country : String) (taxId : Option String) : Action User := do
  let user ← BaseRepository.add .users fun id => { id, email := lower email, hashedPassword, isActive := true }
  let _ ← BaseRepository.add .userProfiles fun id =>
    { id, userId := user.id, fullName, taxId, kycStatus := .pending, country }
  pure user

end UserRepository

structure OnboardingService where
  lower : String → String
  hashPassword : String → Except Exception String
  defaultAccountCurrency : String := "BRL"

namespace OnboardingService
variable (service : OnboardingService)

def userAlreadyExists (email : String) : Exception := .userAlreadyExists s!"Email '{email}' is already registered."

def registerUser (request : Registration) : Action UserRegistrationResult := do
  if ← UserRepository.existsByEmail service.lower request.email then .raise (userAlreadyExists request.email)
  else
    let hashedPassword ← (.done (service.hashPassword request.password) : Action String)
    let user ← UserRepository.createWithProfile service.lower request.email hashedPassword request.fullName
      request.country request.taxId
    let account ← AccountRepository.createDefaultAccount user.id service.defaultAccountCurrency
    pure ⟨user.id,account.id⟩

def bankAccountAlreadyLinked (externalReference : String) : Exception :=
  .bankAccountAlreadyLinked s!"Bank account '{externalReference}' is already linked."

/-- The gateway that step 2 of the docstring names is not called. -/
def linkBankAccount (request : BankAccountLink) : Action BankAccountLinkResult := do
  match ← BankAccountRepository.getByExternalReference request.userId request.externalReference with
  | some _ => .raise (bankAccountAlreadyLinked request.externalReference)
  | none =>
    let bankAccount ← BaseRepository.add .bankAccounts fun id =>
      { id, userId := request.userId, externalReference := request.externalReference, bankName := request.bankName
        status := .active }
    pure ⟨bankAccount.id⟩

end OnboardingService

end CryptoBrokerage
