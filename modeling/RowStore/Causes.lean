import RowStore.Pool

/-! The messages of an error and of its causes, from the outside in. -/
namespace RowStore

def AccessError.chain (e : AccessError) : List String :=
  e.message :: match e with
    | .cache cause => [cause.message]
    | _ => []

def FileError.chain (e : FileError) : List String :=
  e.message :: match e with
    | .disk cause => [cause.message]
    | .page cause => [cause.message]
    | .access cause => cause.chain
    | _ => []

def PoolError.chain (e : PoolError) : List String :=
  match e with
  | .file cause => e.message :: cause.chain
  | .access cause => cause.chain

def CatalogError.chain (e : CatalogError) : List String :=
  e.message :: match e with
    | .file cause => cause.chain
    | .duplicateTable _ => []

end RowStore
