import Replikon.Foundation.Clients
import Replikon.Model.SecurityDao
import Replikon.Model.MessagesDao

/-!
# The interface of the access objects

The log, the key directory and the security provider reach the database through
three access objects. Apart from what these answer, they see the build and the
private key of their instance only.
-/

namespace Replikon

open Foundation

/-- The tables of an instance. -/
inductive Table where
  | messages
  | searchIntervals
  | security
  | keyValue
  deriving DecidableEq

/-- What can be asked of an access object. -/
inductive DaoCall where
  | getAllMessages (author : Text) (intervals : List Interval)
  | insertMessage (signedMsg : SignedChatMeesage)
  | getNextLamport (author : Author)
  | getHeaders
  | insertPublicKey (author : Author) (pubKey : PubKey)
  | insertAdminPublicKey (author : Author) (pubKey : PubKey)
  | insertAllKeys (author : Author) (pubKey : PubKey) (privKey : PrivKey)
  | getUserInfo (author : Author)
  | getAdminsUserInfo
  | getAllPublicKeys
  | insertTextValue (key value : Text)
  | insertIntegerValue (key : Text) (value : Int64)
  | insertBlobValue (key : Text) (view : Buffer)
  | getStringValue (key : Text)
  | getIntegerValue (key : Text)
  | getBlobValue (key : Text)

namespace DaoCall

/-- The type of what a call returns. -/
abbrev Result : DaoCall → Type
  | .getAllMessages _ _ => Expected (List SignedChatMeesage)
  | .insertMessage _ => SqliteResult
  | .getNextLamport _ => Expected UInt64
  | .getHeaders => Expected MessagesDao.Headers
  | .insertPublicKey _ _ => SqliteResult
  | .insertAdminPublicKey _ _ => SqliteResult
  | .insertAllKeys _ _ _ => SqliteResult
  | .getUserInfo _ => Expected (Option SecurityUserInfo)
  | .getAdminsUserInfo => Expected (List SecurityUserInfo)
  | .getAllPublicKeys => Expected (List (Author × PubKey))
  | .insertTextValue _ _ => SqliteResult
  | .insertIntegerValue _ _ => SqliteResult
  | .insertBlobValue _ _ => SqliteResult
  | .getStringValue _ => Expected (Option Text)
  | .getIntegerValue _ => Expected (Option Int64)
  | .getBlobValue _ => Expected (Option Buffer)

/-- The program behind a call. -/
def program : (call : DaoCall) → Program call.Result
  | .getAllMessages author intervals => MessagesDao.getAllMessages author intervals
  | .insertMessage signedMsg => MessagesDao.insertMessage signedMsg
  | .getNextLamport author => MessagesDao.getNextLamport author
  | .getHeaders => MessagesDao.getHeaders
  | .insertPublicKey author pubKey => SecurityDao.insertPublicKey author pubKey
  | .insertAdminPublicKey author pubKey => SecurityDao.insertAdminPublicKey author pubKey
  | .insertAllKeys author pubKey privKey => SecurityDao.insertAllKeys author pubKey privKey
  | .getUserInfo author => SecurityDao.getUserInfo author
  | .getAdminsUserInfo => SecurityDao.getAdminsUserInfo
  | .getAllPublicKeys => SecurityDao.getAllPublicKeys
  | .insertTextValue key value => KeyValueDao.insertTextValue key value
  | .insertIntegerValue key value => KeyValueDao.insertIntegerValue key value
  | .insertBlobValue key view => KeyValueDao.insertBlobValue key view
  | .getStringValue key => KeyValueDao.getStringValue key
  | .getIntegerValue key => KeyValueDao.getIntegerValue key
  | .getBlobValue key => KeyValueDao.getBlobValue key

/-- The table that the first statement of a call needs. -/
def table : DaoCall → Table
  | .getAllMessages _ _ => .searchIntervals
  | .insertMessage _ => .messages
  | .getNextLamport _ => .messages
  | .getHeaders => .messages
  | .insertPublicKey _ _ => .security
  | .insertAdminPublicKey _ _ => .security
  | .insertAllKeys _ _ _ => .security
  | .getUserInfo _ => .security
  | .getAdminsUserInfo => .security
  | .getAllPublicKeys => .security
  | .insertTextValue _ _ => .keyValue
  | .insertIntegerValue _ _ => .keyValue
  | .insertBlobValue _ _ => .keyValue
  | .getStringValue _ => .keyValue
  | .getIntegerValue _ => .keyValue
  | .getBlobValue _ => .keyValue

end DaoCall

/-- What a client of the access objects sees of its instance. -/
structure Setting where
  ndebug : Bool
  selfPrivKey : PrivKey

/-- The setting of a replica. -/
def Replica.setting (replica : Replica) : Setting := ⟨replica.ndebug, replica.selfPrivKey⟩

/-- A client of the access objects. -/
abbrev DaoClient := Client Stop Setting DaoCall.Result

/-- The program of a client. -/
def DaoClient.program {α : Type} (client : DaoClient α) : Program α :=
  client.interpret Replica.setting DaoCall.program

end Replikon
