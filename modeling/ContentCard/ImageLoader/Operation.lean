import ContentCard.ImageLoader

/-!
Operations on a loader.
-/

namespace ContentCard.ImageLoader

inductive Operation
  | setCapacity (capacity : Nat)
  /-- Says also how the fetch would end at that time. -/
  | await (url : String) (result : FetchResult)

def perform (l : ImageLoader) : Operation → ImageLoader
  | .setCapacity capacity => l.setCapacity capacity
  | .await url result => (l.await url result).2

def performAll (l : ImageLoader) (operations : List Operation) : ImageLoader :=
  operations.foldl perform l

end ContentCard.ImageLoader
