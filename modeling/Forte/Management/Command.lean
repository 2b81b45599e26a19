import Forte.Datatypes.Numbers
import Forte.Management.Container

/-!
# Management commands

What a management command is between the parser that reads it and the resource that
executes it: an `SManagementCMD`. The names in it are lists of bounded length.
-/

namespace Forte

/-- `EMGMCommandType`. -/
inductive EMGMCommandType
  | createGroup | createDataType | createFBType | createAdapterType | createFBInstance
  | createConnection
  | deleteGroup | deleteDataType | deleteFBType | deleteFBInstance | deleteConnection
  | deleteAllFBInstances
  | start | stop | read | write | kill
  | queryGroup | queryFB | queryConnection | queryFBTypes | queryDTTypes | queryAdapterTypes
  | queryTypeVers | queryFBType | queryAdapterType | queryDataType | queryGlobalConstType
  | queryGlobalConstTypes
  | reset
  | monitoringGroup | monitoringAddWatch | monitoringRemoveWatch | monitoringReadWatches
  | monitoringForce | monitoringClearForce | monitoringTriggerEvent
  | monitoringResetEventCount
  | invalid
  deriving DecidableEq, Repr

/-- `StringId::insert`: the name that is spelled with these bytes. -/
def StringId.insert (t : Text) : StringId := String.ofList (t.map Char.ofUInt8)

/-- `cgMaxSupportedNameHierarchy`, which is 30 unless it is configured otherwise. -/
def cgMaxSupportedNameHierarchy : ℕ := 30

/-- `TNameIdentifier`. -/
structure TNameIdentifier where
  /-- The names, that of the outermost container first. -/
  names : List StringId
  bound : names.length ≤ cgMaxSupportedNameHierarchy
  deriving DecidableEq

namespace TNameIdentifier

/-- An identifier without names. -/
def nil : TNameIdentifier := ⟨[], Nat.zero_le _⟩

/-- `try_push_back`. -/
def tryPushBack (id : TNameIdentifier) (name : StringId) : Option TNameIdentifier :=
  if h : id.names.length < cgMaxSupportedNameHierarchy then
    some ⟨id.names ++ [name], by rw [List.length_append]; exact h⟩
  else none

@[ext]
theorem ext {id id' : TNameIdentifier} (h : id.names = id'.names) : id = id' := by
  cases id
  cases id'
  cases h
  rfl

theorem tryPushBack_eq_some {id id' : TNameIdentifier} {name : StringId} :
    id.tryPushBack name = some id' ↔ id'.names = id.names ++ [name] := by
  unfold tryPushBack
  split
  · rw [Option.some.injEq, eq_comm, TNameIdentifier.ext_iff]
  · rename_i h
    refine iff_of_false nofun fun heq => h ?_
    have hbound := id'.bound
    rw [heq, List.length_append] at hbound
    exact hbound

end TNameIdentifier

/-- `SManagementCMD`. -/
structure SManagementCMD where
  /-- `mCMD`. -/
  cmd : EMGMCommandType
  /-- `mDestination`, the name of a resource. -/
  destination : Option StringId
  /-- `mFirstParam`. -/
  firstParam : TNameIdentifier
  /-- `mSecondParam`. -/
  secondParam : TNameIdentifier
  /-- `mAdditionalParams`. -/
  additionalParams : Text
  /-- `mID`. -/
  id : Text
  /-- `mMonitorResponse`. -/
  monitorResponse : Text
  deriving DecidableEq

/-- `SManagementCMD::clear`. -/
def SManagementCMD.clear : SManagementCMD where
  cmd := .invalid
  destination := none
  firstParam := .nil
  secondParam := .nil
  additionalParams := []
  id := []
  monitorResponse := []

end Forte
