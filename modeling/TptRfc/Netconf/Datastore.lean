import TptRfc.Netconf.Xml

/-!
# NETCONF: the in-memory datastore

`InMemoryDatastore` and what the calls of several sessions do to it.
-/

namespace TptRfc.Netconf

open Lib Exec Function

inductive DatastoreName where
  | running
  | startup
  | candidate
  | url (url : List Char)
  deriving DecidableEq

inductive EditDefaultOp where
  | merge
  | replace
  | create
  | delete
  | none

inductive StoreError where
  | unknownDatastore (name : DatastoreName)
  | lockDenied (name : DatastoreName)
  | rpc (message : String)

structure InMemoryDatastore where
  stores : DatastoreName → Option Xml
  locked : Finset DatastoreName

namespace InMemoryDatastore

def new : InMemoryDatastore where
  stores := update (fun _ => none) .running (some (Xml.new "config".toList))
  locked := ∅

def insert (d : InMemoryDatastore) (name : DatastoreName) (x : Xml) : InMemoryDatastore :=
  { d with stores := update d.stores name (some x) }

def seed (d : InMemoryDatastore) (name : DatastoreName) (children : List Xml) : InMemoryDatastore :=
  d.insert name ((Xml.new "config".toList).withChildren children)

end InMemoryDatastore

/-! ## Calls -/

abbrev StoreM := Exec InMemoryDatastore StoreError

def dataElement (store : Xml) : Xml := (Xml.new "data".toList).withChildren store.children

def getConfig (source : DatastoreName) : StoreM Xml := do
  let d ← Exec.get
  let store ← okOr (d.stores source) (.unknownDatastore source)
  pure (dataElement store)

def getRunning : StoreM Xml := do
  let d ← Exec.get
  match d.stores .running with
  | some store => pure (dataElement store)
  | none => abort

def existing (children : List Xml) (incoming : Xml) : Option ℕ :=
  children.findIdx? fun c => c.localName = incoming.localName

def editNode (op : EditDefaultOp) (children : List Xml) (incoming : Xml) :
    Except StoreError (List Xml) :=
  match op, existing children incoming with
  | .merge, some pos => .ok (children.set pos incoming)
  | .merge, none => .ok (children ++ [incoming])
  | .create, some _ =>
    .error (.rpc ("create failed: node <" ++ String.ofList incoming.localName ++
      "> already exists"))
  | .create, none => .ok (children ++ [incoming])
  | .delete, some pos => .ok (children.eraseIdx pos)
  | _, _ => .ok children

def editNodes (op : EditDefaultOp) : List Xml → List Xml → Except StoreError Unit × List Xml
  | children, [] => (.ok (), children)
  | children, incoming :: nodes =>
    match editNode op children incoming with
    | .ok children => editNodes op children nodes
    | .error e => (.error e, children)

def edit (op : EditDefaultOp) (children : List Xml) (config : Xml) :
    Except StoreError Unit × List Xml :=
  match op with
  | .replace => (.ok (), config.children)
  | .none => (.ok (), children)
  | op => editNodes op children config.children

def editConfig (target : DatastoreName) (defaultOp : EditDefaultOp) (config : Xml) :
    StoreM Unit := do
  let d ← Exec.get
  if target ∈ d.locked then fail (.rpc "datastore is locked by another session")
  else do
    let store ← okOr (d.stores target) (.unknownDatastore target)
    let (result, children) := edit defaultOp store.children config
    Exec.modify (·.insert target (store.withChildren children))
    lift result

def copyConfig (target source : DatastoreName) : StoreM Unit := do
  let d ← Exec.get
  let src ← okOr (d.stores source) (.unknownDatastore source)
  if target ∈ d.locked then fail (.rpc "datastore is locked")
  else Exec.modify (·.insert target src)

def clearConfig (target : DatastoreName) : StoreM Unit := do
  let d ← Exec.get
  if target ∈ d.locked then fail (.rpc "datastore is locked")
  else Exec.modify (·.insert target (Xml.new "config".toList))

def deleteConfig : DatastoreName → StoreM Unit
  | .running => fail (.rpc "<delete-config> of the running datastore is not permitted")
  | .url _ => fail (.rpc "<delete-config> of a URL datastore is not supported")
  | target => clearConfig target

def lock (target : DatastoreName) : StoreM Unit := do
  let d ← Exec.get
  if target ∈ d.locked then fail (.lockDenied target)
  else Exec.modify fun d => { d with locked := insert target d.locked }

def unlock (target : DatastoreName) : StoreM Unit :=
  Exec.modify fun d => { d with locked := d.locked.erase target }

def closeSession : StoreM Unit := Exec.modify fun d => { d with locked := ∅ }

inductive Call where
  | getConfig (source : DatastoreName)
  | get (filter : Option Xml)
  | editConfig (target : DatastoreName) (defaultOp : EditDefaultOp) (config : Xml)
  | copyConfig (target source : DatastoreName)
  | deleteConfig (target : DatastoreName)
  | lock (target : DatastoreName)
  | unlock (target : DatastoreName)
  | closeSession

def Call.exec : Call → StoreM (Option Xml)
  | .getConfig source => some <$> Netconf.getConfig source
  | .get _ => some <$> getRunning
  | .editConfig target defaultOp config =>
    (fun _ => none) <$> Netconf.editConfig target defaultOp config
  | .copyConfig target source => (fun _ => none) <$> Netconf.copyConfig target source
  | .deleteConfig target => (fun _ => none) <$> Netconf.deleteConfig target
  | .lock target => (fun _ => none) <$> Netconf.lock target
  | .unlock target => (fun _ => none) <$> Netconf.unlock target
  | .closeSession => (fun _ => none) <$> Netconf.closeSession

def run (d : InMemoryDatastore) : List (ℕ × Call) → InMemoryDatastore
  | [] => d
  | (_, call) :: calls => run (call.exec d).2 calls

/-! ## Edits that fail -/

variable {d : InMemoryDatastore} {children : List Xml} {e : StoreError} {op : EditDefaultOp}
  {target : DatastoreName}

theorem editNode_error {incoming : Xml} (h : editNode op children incoming = .error e) :
    op = .create ∧ (existing children incoming).isSome := by
  unfold editNode at h
  cases hpos : existing children incoming <;> cases op <;> rw [hpos] at h <;> cases h
  exact ⟨rfl, rfl⟩

theorem editNodes_error {nodes : List Xml}
    (h : (editNodes op children nodes).1 = .error e) : op = .create := by
  induction nodes generalizing children with
  | nil => cases h
  | cons incoming nodes ih =>
    rw [editNodes] at h
    cases hnode : editNode op children incoming with
    | ok children' =>
      rw [hnode] at h
      exact ih h
    | error e' => exact (editNode_error hnode).1

theorem prefix_editNodes_create (children nodes : List Xml) :
    children <+: (editNodes .create children nodes).2 := by
  induction nodes generalizing children with
  | nil => exact List.prefix_rfl
  | cons incoming nodes ih =>
    cases hpos : existing children incoming with
    | some pos => simp only [editNodes, editNode, hpos, List.prefix_rfl]
    | none =>
      simp only [editNodes, editNode, hpos]
      exact (List.prefix_append _ _).trans (ih _)

/-- The edit is a `create` on an unlocked datastore, and its first node is new there. -/
def AddsFirst (d : InMemoryDatastore) (target : DatastoreName) (op : EditDefaultOp)
    (config : Xml) : Prop :=
  op = .create ∧ target ∉ d.locked ∧ ∃ store node, d.stores target = some store ∧
    config.children.head? = some node ∧ existing store.children node = none

theorem edit_error_iff {config : Xml} (h : (edit op children config).1 = .error e) :
    (edit op children config).2 = children ↔ ¬ (op = .create ∧
      ∃ node, config.children.head? = some node ∧ existing children node = none) := by
  have hop : op = .create := by
    cases op with
    | create => rfl
    | replace | none => cases h
    | merge | delete => exact editNodes_error h
  subst hop
  change (editNodes .create children config.children).2 = children ↔ _
  change (editNodes .create children config.children).1 = _ at h
  cases hnodes : config.children with
  | nil =>
    rw [hnodes] at h
    cases h
  | cons node nodes =>
    cases hpos : existing children node with
    | some pos => simp [editNodes, editNode, hpos]
    | none =>
      -- the node is there when a later one fails
      have hlen := (prefix_editNodes_create (children ++ [node]) nodes).length_le
      simp only [editNodes, editNode, hpos]
      refine iff_of_false (fun heq => ?_) fun hnot => hnot ⟨trivial, node, rfl, hpos⟩
      rw [heq, List.length_append, List.length_singleton] at hlen
      omega

theorem editConfig_error {d' : InMemoryDatastore} {config : Xml} {e : Fault StoreError}
    (h : editConfig target op config d = (.error e, d')) :
    d'.locked = d.locked ∧ (∀ name ≠ target, d'.stores name = d.stores name) ∧
      (d'.stores target = d.stores target ↔ ¬ AddsFirst d target op config) := by
  unfold editConfig at h
  rw [get_bind] at h
  split at h
  · rename_i hlocked
    cases h
    exact ⟨rfl, fun _ _ => rfl, iff_of_true rfl fun hadds => hadds.2.1 hlocked⟩
  rename_i hfree
  cases hstore : d.stores target with
  | none =>
    rw [hstore] at h
    cases h
    refine ⟨rfl, fun _ _ => rfl, iff_of_true hstore ?_⟩
    rintro ⟨-, -, store, -, hsome, -⟩
    rw [hstore] at hsome
    cases hsome
  | some store =>
    rw [hstore] at h
    cases hresult : (edit op store.children config).1 with
    | ok u => simp [bind_apply, hresult] at h
    | error e' =>
      simp only [bind_apply, okOr_some, modify_apply, hresult, lift_error, Prod.mk.injEq] at h
      obtain ⟨-, rfl⟩ := h
      refine ⟨rfl, fun name hname => update_of_ne hname _ _, ?_⟩
      have hsame : store.withChildren (edit op store.children config).2 = store ↔
          (edit op store.children config).2 = store.children := by
        cases store
        simp [Xml.withChildren, Xml.children]
      simp only [InMemoryDatastore.insert, update_self, Option.some.injEq]
      rw [hsame, edit_error_iff hresult]
      simp [AddsFirst, hfree, hstore]

/-! ## Locks -/

theorem map_snd {α β : Type} (f : α → β) (x : StoreM α) (d : InMemoryDatastore) :
    ((f <$> x) d).2 = (x d).2 := by
  change ((x >>= fun a => pure (f a)) d).2 = (x d).2
  rw [bind_apply]
  rcases x d with ⟨r | a, d'⟩ <;> rfl

def Call.Lifts (target : DatastoreName) : Call → Prop
  | .unlock name => name = target
  | .closeSession => True
  | _ => False

def Kept (target : DatastoreName) (d d' : InMemoryDatastore) : Prop :=
  target ∈ d'.locked ∧ d'.stores target = d.stores target

section Locked

variable {d : InMemoryDatastore} {target : DatastoreName} (hlocked : target ∈ d.locked)
include hlocked

theorem Kept.refl : Kept target d d := ⟨hlocked, rfl⟩

theorem Kept.insert {name : DatastoreName} (x : Xml) (hname : name ∉ d.locked) :
    Kept target d (d.insert name x) := by
  refine ⟨hlocked, update_of_ne ?_ _ _⟩
  rintro rfl
  exact hname hlocked

theorem kept_editConfig (name : DatastoreName) (op : EditDefaultOp) (config : Xml) :
    Kept target d (editConfig name op config d).2 := by
  unfold editConfig
  rw [get_bind]
  split
  · exact .refl hlocked
  · rename_i hname
    cases d.stores name with
    | none => exact .refl hlocked
    | some store =>
      cases hresult : (edit op store.children config).1 <;>
        simpa [bind_apply, hresult] using Kept.insert hlocked _ hname

theorem kept_copyConfig (name source : DatastoreName) :
    Kept target d (copyConfig name source d).2 := by
  unfold copyConfig
  rw [get_bind]
  cases d.stores source with
  | none => exact .refl hlocked
  | some src =>
    rw [bind_of_ok (okOr_some src _ d)]
    split
    · exact .refl hlocked
    · exact .insert hlocked src ‹_›

theorem kept_clearConfig (name : DatastoreName) : Kept target d (clearConfig name d).2 := by
  unfold clearConfig
  rw [get_bind]
  split
  · exact .refl hlocked
  · exact .insert hlocked _ ‹_›

theorem kept_deleteConfig (name : DatastoreName) : Kept target d (deleteConfig name d).2 := by
  cases name with
  | running | url => exact .refl hlocked
  | startup | candidate => exact kept_clearConfig hlocked _

theorem kept_lock (name : DatastoreName) : Kept target d (lock name d).2 := by
  unfold lock
  rw [get_bind]
  split
  · exact .refl hlocked
  · exact ⟨Finset.mem_insert_of_mem hlocked, rfl⟩

theorem kept_exec {call : Call} (hcall : ¬ call.Lifts target) : Kept target d (call.exec d).2 := by
  cases call with
  | getConfig source =>
    rw [Call.exec, map_snd, getConfig, get_bind]
    cases d.stores source <;> exact .refl hlocked
  | get filter =>
    rw [Call.exec, map_snd, getRunning, get_bind]
    cases d.stores .running <;> exact .refl hlocked
  | editConfig name op config =>
    rw [Call.exec, map_snd]
    exact kept_editConfig hlocked name op config
  | copyConfig name source =>
    rw [Call.exec, map_snd]
    exact kept_copyConfig hlocked name source
  | deleteConfig name =>
    rw [Call.exec, map_snd]
    exact kept_deleteConfig hlocked name
  | lock name =>
    rw [Call.exec, map_snd]
    exact kept_lock hlocked name
  | unlock name =>
    rw [Call.exec, map_snd]
    exact ⟨Finset.mem_erase.mpr ⟨fun h => hcall h.symm, hlocked⟩, rfl⟩
  | closeSession => exact absurd trivial hcall

end Locked

theorem kept_run {calls : List (ℕ × Call)}
    (hlocked : target ∈ d.locked) (hcalls : ∀ c ∈ calls, ¬ c.2.Lifts target) :
    Kept target d (run d calls) := by
  induction calls generalizing d with
  | nil => exact .refl hlocked
  | cons c calls ih =>
    have hfirst := kept_exec hlocked (hcalls c List.mem_cons_self)
    have hrest := ih hfirst.1 fun c hc => hcalls c (List.mem_cons_of_mem _ hc)
    exact ⟨hrest.1, hrest.2.trans hfirst.2⟩

theorem mem_locked_of_lock {d' : InMemoryDatastore}
    (h : lock target d = (.ok (), d')) : target ∈ d'.locked ∧ d'.stores = d.stores := by
  unfold lock at h
  rw [get_bind] at h
  split at h
  · cases h
  · cases h
    exact ⟨Finset.mem_insert_self _ _, rfl⟩

/-- **Failed edits and locks.**  An edit that fails leaves the locks and the other
datastores alone, and its target too, except exactly if it is a `create` on an unlocked
datastore that adds its first node before it fails.  From a `lock` on nobody changes the
datastore, as long as no session unlocks it or ends. -/
theorem failed_edit_and_lock_keep (d : InMemoryDatastore) (target : DatastoreName) :
    (∀ op config e d', editConfig target op config d = (.error e, d') →
      d'.locked = d.locked ∧ (∀ name ≠ target, d'.stores name = d.stores name) ∧
        (d'.stores target = d.stores target ↔ ¬ AddsFirst d target op config)) ∧
    ∀ d', lock target d = (.ok (), d') → ∀ calls : List (ℕ × Call),
      (∀ c ∈ calls, ¬ c.2.Lifts target) → (run d' calls).stores target = d.stores target := by
  refine ⟨fun op config e d' => editConfig_error, fun d' hlock calls hcalls => ?_⟩
  obtain ⟨hlocked, hstores⟩ := mem_locked_of_lock hlock
  rw [(kept_run hlocked hcalls).2, hstores]

/-- Another session fails to edit a locked datastore; and a `create` fails behind a new node:
it changes the running datastore, and no other. -/
theorem locked_running_keeps : (run (lock .running InMemoryDatastore.new).2
      [(2, .editConfig .running .replace (Xml.new ['b'])), (2, .deleteConfig .running)]).stores
        .running = InMemoryDatastore.new.stores .running ∧
    (let d := InMemoryDatastore.new.seed .running [.new ['a']]
      let d' := (editConfig .running .create
        ((Xml.new []).withChildren [.new ['b'], .new ['a']]) d).2
      d'.stores .startup = d.stores .startup ∧ d'.stores .running ≠ d.stores .running) := by
  refine ⟨(failed_edit_and_lock_keep .new .running).2 _ rfl _ (by simp [Call.Lifts]), ?_⟩
  obtain ⟨-, hothers, htarget⟩ :=
    (failed_edit_and_lock_keep (InMemoryDatastore.new.seed .running [.new ['a']]) .running).1
      .create ((Xml.new []).withChildren [.new ['b'], .new ['a']]) _ _ rfl
  refine ⟨hothers .startup (by decide), fun heq => htarget.mp heq ?_⟩
  exact ⟨rfl, by decide, _, _, rfl, rfl, rfl⟩

/-- A `create` of a new node and of one that exists fails and leaves the new one; and a
session lifts the lock of another and changes the datastore. -/
theorem failed_create_and_foreign_unlock :
    (let d := InMemoryDatastore.new.seed .running [.new ['a']]
      let r := editConfig .running .create ((Xml.new []).withChildren [.new ['b'], .new ['a']]) d
      r.1 = .error (.error (.rpc "create failed: node <a> already exists")) ∧
        ((d.stores .running).map (·.children.length) = some 1) ∧
        (r.2.stores .running).map (·.children.length) = some 2) ∧
    (let d := (lock .running InMemoryDatastore.new).2
      let d' := run d [(2, .unlock .running),
        (2, .editConfig .running .merge ((Xml.new []).withChildren [.new ['b']]))]
      ((d.stores .running).map (·.children.length) = some 0) ∧
        (d'.stores .running).map (·.children.length) = some 1) := by
  refine ⟨⟨rfl, rfl, rfl⟩, rfl, rfl⟩

end TptRfc.Netconf
