import FileGrants.CommandLine.Run

/-!
Contract: which paths an invocation can touch.

Owns: the files that settings are read from and kept in, and the paths that a
command examines or changes.

Does not own: what stands at these paths.

A run on a tree that holds these paths, and whatever leads to them, is a run on
all files.
-/

namespace FileGrants.CommandLine

/-- The files that the settings of both scopes are read from and kept in. -/
def settingFiles (environment : Environment) (files : FileTree) : List String :=
  [ConfigScope.global, .project].flatMap fun scope =>
    match scope.store environment files with
    | .ok store => [store.file Config.fileName, store.stagingFile Config.fileName]
    | .error _ => []

/-- The path of the store, and the file that it asks for where it is an address. -/
def storeFiles (config : Config) (environment : Environment) : List String :=
  match config.dataDirectory environment with
  | .ok directory =>
      let path := GrantStore.path directory
      path :: ((StoreSource.ofPath? path).map (·.file)).toList
  | .error _ => []

/-- The path of a URI where its owner sees it, and its entries for a receiver. -/
def sharePaths (receiver : View) (text : String) : List String :=
  match FileUri.parse text with
  | .error _ => []
  | .ok uri =>
      [(receiver.forApp uri.authority).pathOf uri, receiver.shareEntry .readOnly uri,
        receiver.shareEntry .readWrite uri]

/-- The paths that a command examines or changes, besides settings and store. -/
def Command.paths (view : View) : Command → List String
  | .batch _ uris _ => uris.filterMap fun uri => (view.resolve uri).toOption
  | .share target uris _ | .unshare target uris =>
      uris.flatMap (sharePaths (view.forApp target))
  | _ => []

/-- Whether a command works on the store. -/
def Command.usesStore : Command → Bool
  | .batch _ _ _ | .list _ => true
  | _ => false

end FileGrants.CommandLine
