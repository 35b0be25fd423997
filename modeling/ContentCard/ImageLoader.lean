import ContentCard.ImageCache
import ContentCard.Png
import ContentCard.Web.Address

/-!
Images that are fetched when a card asks for them.

An address with a result in the cache is answered from there, and one that is being fetched is not
fetched again.  Every fetch that ends is noted, also one that failed.
-/

namespace ContentCard

/-! ## Fetches -/

/-- Where the bytes of an image are, by the scheme of its address. -/
inductive ImagePlace
  | file (path : String)
  | web (url : String)
  | nowhere
deriving DecidableEq, Repr

def ImagePlace.ofAddress (a : Web.Address) : ImagePlace :=
  if a.scheme = "file".toList then
    match a.filePath?.bind fun path => String.fromUTF8? ⟨path.toArray⟩ with
    | some path => file path
    | none => nowhere
  else if a.scheme = "http".toList ∨ a.scheme = "https".toList then web a.text
  else nowhere

/-- What a fetch makes of the bytes it got. -/
def FetchResult.ofBytes (bytes : Option (List UInt8)) : FetchResult := bytes.bind Png.decode?

/-! ## The loader -/

structure ImageLoader where
  cache : ImageCache := {}
  /-- The addresses whose fetches are under way, each once. -/
  inFlight : List String := []
  /-- The addresses whose fetches have ended, in this order. -/
  notices : List String := []
deriving Inhabited

namespace ImageLoader

/-- Changes the capacity; results that are in the cache stay there. -/
def setCapacity (l : ImageLoader) (capacity : Nat) : ImageLoader :=
  { l with cache := { l.cache with capacity } }

/-- What the loader knows of an image. -/
def state (l : ImageLoader) : ImageSource := fun url =>
  match l.cache.find? url with
  | some result => .ofResult result
  | none => .pending

/-- Asks for an image; unless something is known of it, a fetch begins. -/
def request (l : ImageLoader) (url : String) : ImageLoader :=
  if (l.cache.find? url).isSome ∨ url ∈ l.inFlight then l
  else { l with inFlight := url :: l.inFlight }

/-- A fetch comes to its end: its result is stored, it is not under way any more, and it is
noted. -/
def settle (l : ImageLoader) (url : String) (result : FetchResult) : ImageLoader where
  cache := l.cache.insert url result
  inFlight := l.inFlight.erase url
  notices := l.notices ++ [url]

/-- Asks for an image and waits for the end of its fetch, if there is one, while no other one is
under way.  The result is that of the fetch. -/
def await (l : ImageLoader) (url : String) (result : FetchResult) : ImageState × ImageLoader :=
  match l.cache.find? url with
  | some known => (.ofResult known, l)
  | none => (.ofResult result, (l.request url).settle url result)

/-- Waits for one image after the other; only what the cache does not know is fetched. -/
def awaitAll [Monad m] (fetch : Web.Address → m FetchResult) :
    List Web.Address → ImageLoader → m ImageLoader
  | [], l => return l
  | url :: urls, l => do
    match l.cache.find? url.text with
    | some _ => awaitAll fetch urls l
    | none => awaitAll fetch urls (l.await url.text (← fetch url)).2

end ImageLoader

end ContentCard
