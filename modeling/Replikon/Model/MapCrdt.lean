import Replikon.Foundation.SortedMap
import Replikon.Model.Types

/-!
# `crdt::Register` and `crdt::MapCRDT`

The containers of `register.h` and `map.h`. `MapCRDT` is a template over its
value type, of which it uses the four operations of a CRDT, a local update and
a default: `_values[k]` of an absent key default-constructs its value and files
it, in the reading operations as well. The loops visit an update in its order.
-/

namespace Replikon

open Foundation

universe u v

/-- What `MapCRDT` uses of a type that fulfils `traits::CRDT`. -/
structure ValueCRDT where
  State : Type u
  initial : State
  Header : Type u
  Request : Type u
  Update : Type u
  getHeader : State → Header
  getRequest : State → Header → Request
  getUpdate : State → Request → Update
  merge : State → Update → State × MergeStatus
  localUpdate : State → Update → State

/-- `Register<Value>`. Its state is `_value`; `merge` assigns without looking
at the value it had. -/
abbrev Register (Value : Type u) [Inhabited Value] : ValueCRDT where
  State := Value
  initial := default
  Header := PUnit
  Request := PUnit
  Update := Value
  getHeader _ := ⟨⟩
  getRequest _ _ := ⟨⟩
  getUpdate value _ := value
  merge _ u := (u, .merged)
  localUpdate _ u := u

/-- `MapCRDT<K, ValueCRDT>`: its `_values`. -/
abbrev MapCRDT (K : Type v) [LinearOrder K] (crdt : ValueCRDT.{u}) := SortedMap K crdt.State

namespace MapCRDT

variable {K : Type v} [LinearOrder K] {crdt : ValueCRDT.{u}}

/-- The value `_values[k]` refers to. -/
def valueAt (values : MapCRDT K crdt) (k : K) : crdt.State := (values.find k).getD crdt.initial

def getHeader (values : MapCRDT K crdt) : List (K × crdt.Header) :=
  values.entries.map fun entry => (entry.1, crdt.getHeader entry.2)

/-- The request, behind the map with every asked key filed. -/
def getRequest (values : MapCRDT K crdt) :
    List (K × crdt.Header) → MapCRDT K crdt × List (K × crdt.Request)
  | [] => (values, [])
  | (k, head) :: rest =>
    let v := valueAt values k
    let (filed, request) := getRequest (values.insert k v) rest
    (filed, (k, crdt.getRequest v head) :: request)

/-- The update, behind the map with every asked key filed. -/
def getUpdate (values : MapCRDT K crdt) :
    List (K × crdt.Request) → MapCRDT K crdt × List (K × crdt.Update)
  | [] => (values, [])
  | (k, req) :: rest =>
    let v := valueAt values k
    let (filed, update) := getUpdate (values.insert k v) rest
    (filed, (k, crdt.getUpdate v req) :: update)

/-- The loop of `merge`, from the status so far. -/
def mergeEntries (values : MapCRDT K crdt) (status : MergeStatus) :
    List (K × crdt.Update) → MapCRDT K crdt × MergeStatus
  | [] => (values, status)
  | (k, upd) :: rest =>
    let (v, s) := crdt.merge (valueAt values k) upd
    mergeEntries (values.insert k v) (if s = .skipped then .skipped else status) rest

def merge (values : MapCRDT K crdt) (update : List (K × crdt.Update)) :
    MapCRDT K crdt × MergeStatus :=
  mergeEntries values .merged update

def localUpdate (values : MapCRDT K crdt) (key : K) (update : crdt.Update) : MapCRDT K crdt :=
  values.insert key (crdt.localUpdate (valueAt values key) update)

/-- Merge the updates one after another. -/
def mergeAll (values : MapCRDT K crdt) (updates : List (List (K × crdt.Update))) :
    MapCRDT K crdt :=
  updates.foldl (fun current update => (merge current update).1) values

end MapCRDT

end Replikon
