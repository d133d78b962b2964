import FileGrants.Config.Basic
import FileGrants.Proofs.Json.Forms

/-!
Contract: every record is read back from what it is written as.

Owns: that the forms of modes, kinds, reasons, policies, rejections, applications, grant keys,
grants, file URIs and settings keep their values, and that both texts of each are read as it.

Does not own: what other texts are read as.

Settings are the one record that leaves out what is absent or empty. All others write every
field, an absent value as null.
-/

namespace FileGrants

namespace JsonForm

/-! ## Words -/

theorem keeps_accessMode (mode : AccessMode) : Keeps mode := by
  cases mode <;> exact ⟨.string _, rfl⟩

theorem keeps_grantKind (kind : GrantKind) : Keeps kind := by
  cases kind <;> exact ⟨.string _, rfl⟩

theorem keeps_rejectionReason (reason : RejectionReason) : Keeps reason := by
  cases reason <;> exact ⟨.string _, rfl⟩

/-! ## Values that may be absent -/

theorem keeps_text? (text : Option String) : Keeps text :=
  keeps_option (fun text _ => keeps_string text) fun _ => nofun

theorem keeps_flag? (flag : Option Bool) : Keeps flag :=
  keeps_option (fun flag _ => keeps_bool flag) fun _ => nofun

/-! ## Records that write every field -/

theorem keeps_uriPolicy (policy : UriPolicy) : Keeps policy := by
  have uri := keeps_string policy.uri
  have mode := keeps_accessMode policy.mode
  refine keeps_record
    [("uri", some (toJson policy.uri)), ("operationMode", some (toJson policy.mode))]
    rfl (fun _ => rfl) rfl (by decide) ?_ ?_
  · simp [uri.writable, mode.writable]
  · simp [uri.required?_eq, mode.required?_eq]

theorem keeps_pathPolicy (policy : PathPolicy) : Keeps policy := by
  have path := keeps_string policy.path
  have mode := keeps_accessMode policy.mode
  refine keeps_record [("path", some (toJson policy.path)), ("mode", some (toJson policy.mode))]
    rfl (fun _ => rfl) rfl (by decide) ?_ ?_
  · simp [path.writable, mode.writable]
  · simp [path.required?_eq, mode.required?_eq]

theorem keeps_grantKey (key : GrantKey) : Keeps key := by
  have path := keeps_string key.path
  have mode := keeps_accessMode key.mode
  refine keeps_record [("path", some (toJson key.path)), ("mode", some (toJson key.mode))]
    rfl (fun _ => rfl) rfl (by decide) ?_ ?_
  · simp [path.writable, mode.writable]
  · simp [path.required?_eq, mode.required?_eq]

theorem keeps_rejection (rejection : Rejection) : Keeps rejection := by
  have uri := keeps_string rejection.uri
  have reason := keeps_rejectionReason rejection.reason
  have message := keeps_string rejection.message
  refine keeps_record
    [("uri", some (toJson rejection.uri)), ("code", some (toJson rejection.reason)),
      ("message", some (toJson rejection.message))]
    rfl (fun _ => rfl) rfl (by decide) ?_ ?_
  · simp [uri.writable, reason.writable, message.writable]
  · simp [uri.required?_eq, reason.required?_eq, message.required?_eq]

theorem keeps_appIdentity (app : AppIdentity) : Keeps app := by
  have appId := keeps_string app.appId
  have permissions := keeps_nameSet app.permissions
  refine keeps_record
    [("appId", some (toJson app.appId)), ("permissions", some (toJson app.permissions))]
    rfl (fun _ => rfl) rfl (by decide) ?_ ?_
  · simp [appId.writable, permissions.writable]
  · simp [appId.required?_eq, permissions.defaulted?_eq]

theorem keeps_fileUri (uri : FileUri) : Keeps uri := by
  have raw := keeps_string uri.raw
  have authority := keeps_string uri.authority
  have path := keeps_string uri.decodedPath
  have query := keeps_text? uri.query
  refine keeps_record
    [("raw", some (toJson uri.raw)), ("authority", some (toJson uri.authority)),
      ("path", some (toJson uri.decodedPath)), ("query", some (toJson uri.query))]
    rfl (fun _ => rfl) rfl (by decide) ?_ ?_
  · simp [raw.writable, authority.writable, path.writable, query.writable]
  · simp [raw.required?_eq, authority.required?_eq, path.required?_eq, query.optional?_eq]

theorem keeps_grant (grant : Grant) : Keeps grant := by
  have appId := keeps_string grant.appId
  have path := keeps_string grant.path
  have mode := keeps_accessMode grant.mode
  have grantingApp := keeps_string grant.grantingApp
  have active := keeps_bool grant.active
  have createdAt := keeps_string grant.createdAt
  have updatedAt := keeps_string grant.updatedAt
  have activatedAt := keeps_text? grant.activatedAt
  refine keeps_record
    [("app_id", some (toJson grant.appId)), ("path", some (toJson grant.path)),
      ("mode", some (toJson grant.mode)), ("granting_app", some (toJson grant.grantingApp)),
      ("active", some (toJson grant.active)), ("created_at", some (toJson grant.createdAt)),
      ("updated_at", some (toJson grant.updatedAt)),
      ("activated_at", some (toJson grant.activatedAt))]
    rfl (fun _ => rfl) rfl (by decide) ?_ ?_
  · simp [appId.writable, path.writable, mode.writable, grantingApp.writable, active.writable,
      createdAt.writable, updatedAt.writable, activatedAt.writable]
  · simp [appId.required?_eq, path.required?_eq, mode.required?_eq, grantingApp.required?_eq,
      active.required?_eq, createdAt.required?_eq, updatedAt.required?_eq,
      activatedAt.optional?_eq]

/-! ## Settings -/

theorem present_member
    {α : Type}
    [JsonForm α]
    (name : String)
    (found : Option α)
    (rest : List (String × Option Json)) :
    Json.present ((name, found.map toJson) :: rest) =
      Config.member name found ++ Json.present rest := by
  cases found <;> rfl

/-- The permissions of settings as they are written, unless there are none. -/
def writtenPermissions (permissions : NameSet) : Option Json :=
  if permissions.isEmpty then none else some (toJson permissions)

theorem defaulted?_writtenPermissions (permissions : NameSet) :
    Json.defaulted? NameSet.empty (writtenPermissions permissions) = some permissions := by
  unfold writtenPermissions
  split_ifs with isEmpty
  · obtain ⟨names, ascending⟩ := permissions
    obtain rfl := List.isEmpty_iff.mp isEmpty
    rfl
  · exact (keeps_nameSet permissions).reads

theorem writable_writtenPermissions (permissions : NameSet) :
    ∀ json ∈ writtenPermissions permissions, json.IsWritable := by
  unfold writtenPermissions
  split_ifs
  · nofun
  · intro json written
    obtain rfl := Option.some.inj written
    exact (keeps_nameSet permissions).writable

/-- The fields of settings with what is written of them. -/
def entriesOf (config : Config) : List (String × Option Json) :=
  [("appId", config.appId.map toJson), ("userName", config.userName.map toJson),
    ("sandboxRoot", config.sandboxRoot.map toJson),
    ("userStorageRoot", config.userStorageRoot.map toJson),
    ("dataDir", config.dataDir.map toJson), ("deviceType", config.deviceType.map toJson),
    ("fullMountEnabled", config.fullMountEnabled.map toJson),
    ("permissionSupported", config.permissionSupported.map toJson),
    ("maxPolicies", config.maxPolicies.map toJson),
    ("grantedPermissions", writtenPermissions config.grantedPermissions)]

theorem toJson_config (config : Config) :
    toJson config = .object (Json.present (entriesOf config)) := by
  have permissions : Json.present
      [("grantedPermissions", writtenPermissions config.grantedPermissions)] =
        if config.grantedPermissions.isEmpty then []
        else [("grantedPermissions", toJson config.grantedPermissions)] := by
    unfold writtenPermissions
    split_ifs <;> rfl
  refine congrArg Json.object ?_
  simp only [entriesOf, present_member, permissions, List.append_assoc]

theorem keeps_config
    (config : Config)
    (small : ∀ count ∈ config.maxPolicies, count < Json.countBound) :
    Keeps config := by
  have appId := keeps_text? config.appId
  have userName := keeps_text? config.userName
  have sandboxRoot := keeps_text? config.sandboxRoot
  have userStorageRoot := keeps_text? config.userStorageRoot
  have dataDir := keeps_text? config.dataDir
  have deviceType := keeps_text? config.deviceType
  have fullMount := keeps_flag? config.fullMountEnabled
  have supported := keeps_flag? config.permissionSupported
  have maxPolicies : Keeps config.maxPolicies :=
    keeps_option (fun count found => keeps_nat (small count found)) fun _ => nofun
  refine keeps_record (entriesOf config) (toJson_config config) (fun _ => rfl) rfl (by decide) ?_ ?_
  · simp only [entriesOf, List.forall_mem_cons, List.not_mem_nil, false_imp_iff, implies_true,
      and_true]
    exact ⟨appId.writable_map, userName.writable_map, sandboxRoot.writable_map,
      userStorageRoot.writable_map, dataDir.writable_map, deviceType.writable_map,
      fullMount.writable_map, supported.writable_map, maxPolicies.writable_map,
      writable_writtenPermissions config.grantedPermissions⟩
  · simp [entriesOf, appId.optional?_map_eq, userName.optional?_map_eq,
      sandboxRoot.optional?_map_eq, userStorageRoot.optional?_map_eq, dataDir.optional?_map_eq,
      deviceType.optional?_map_eq, fullMount.optional?_map_eq, supported.optional?_map_eq,
      maxPolicies.optional?_map_eq, defaulted?_writtenPermissions]

/-- **Everything that is written is read back.** For every value of the types that are stored
or exchanged, with whatever texts in its fields, whichever of them are absent and whatever
permissions are listed, both the compact and the laid-out text are read as the value again. A
limit in settings has to be a count of sixty-four bits. -/
theorem texts_read_back :
    (∀ policy : UriPolicy, IsReadBack policy)
      ∧ (∀ policy : PathPolicy, IsReadBack policy)
      ∧ (∀ rejection : Rejection, IsReadBack rejection)
      ∧ (∀ app : AppIdentity, IsReadBack app)
      ∧ (∀ key : GrantKey, IsReadBack key)
      ∧ (∀ grant : Grant, IsReadBack grant)
      ∧ (∀ config : Config, (∀ count ∈ config.maxPolicies, count < 2 ^ 64) → IsReadBack config)
      ∧ (∀ uri : FileUri, IsReadBack uri)
      ∧ (∀ mode : AccessMode, IsReadBack mode)
      ∧ (∀ kind : GrantKind, IsReadBack kind)
      ∧ ∀ reason : RejectionReason, IsReadBack reason :=
  ⟨fun policy => (keeps_uriPolicy policy).isReadBack,
    fun policy => (keeps_pathPolicy policy).isReadBack,
    fun rejection => (keeps_rejection rejection).isReadBack,
    fun app => (keeps_appIdentity app).isReadBack,
    fun key => (keeps_grantKey key).isReadBack,
    fun grant => (keeps_grant grant).isReadBack,
    fun config small => (keeps_config config small).isReadBack,
    fun uri => (keeps_fileUri uri).isReadBack,
    fun mode => (keeps_accessMode mode).isReadBack,
    fun kind => (keeps_grantKind kind).isReadBack,
    fun reason => (keeps_rejectionReason reason).isReadBack⟩

/-- Settings with a name that has to be escaped, the greatest limit and two permissions. -/
def guestConfig : Config :=
  { Config.empty with
    userName := some "a\u0001\"b\\"
    maxPolicies := some 18446744073709551615
    grantedPermissions := .ofList ["w", "r"] }

theorem guestConfig_reads_back :
    toText guestConfig =
        "\x7b\"userName\":\"a\\u0001\\\"b\\\\\",\"maxPolicies\":18446744073709551615,"
          ++ "\"grantedPermissions\":[\"r\",\"w\"]\x7d"
      ∧ IsReadBack guestConfig := by
  obtain ⟨-, -, -, -, -, -, configs, -⟩ := texts_read_back
  refine ⟨by decide +kernel, configs guestConfig ?_⟩
  intro count limit
  obtain rfl := Option.some.inj limit
  decide

end JsonForm

end FileGrants
