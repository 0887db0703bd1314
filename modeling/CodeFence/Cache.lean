import CodeFence.Hash
import CodeFence.Markup.Document

/-!
# The cache of rendered blocks

A block is found again by its language, its theme and the hash of its source.  The entry keeps the
source too, so that two sources with one hash are never taken for each other.  Entries grow old, and
when the cache is full the expired ones go, or else the one that was used least recently.

Time is a number of milliseconds, given to every operation that depends on it.
-/

namespace CodeFence

open Markup

/-- What a rendering is found by. -/
structure CacheKey where
  language : String
  theme : String
  hash : Int32
  deriving DecidableEq

/-- The key of a source in a language and a theme. -/
def CacheKey.of (code language theme : String) : CacheKey :=
  ⟨language, theme, contentHash code⟩

/-- The written form of a key. -/
def CacheKey.render (k : CacheKey) : String :=
  k.language ++ "-" ++ k.theme ++ "-" ++ toString k.hash.toInt

/-- A rendering that is kept. -/
structure CacheEntry where
  document : Document
  created : Nat
  source : String
  hash : Int32
  /-- Whether the block could not be rendered in the language that was asked for. -/
  isFallback : Bool

/-- The entry of a rendering that was made now. -/
def CacheEntry.of (document : Document) (source : String) (isFallback : Bool) (now : Nat) :
    CacheEntry :=
  ⟨document, now, source, contentHash source, isFallback⟩

/-- The most milliseconds that a fallback rendering lives. -/
def fallbackLifetime : Nat := 5 * 60 * 1000

/-- Rendered blocks by key.  `order` holds the keys from the least to the most recently used. -/
structure Cache where
  capacity : Nat
  /-- How many milliseconds an entry lives. -/
  lifetime : Nat
  entries : List (CacheKey × CacheEntry) := []
  order : List CacheKey := []

namespace Cache

/-- An empty cache.  There is always room for one entry. -/
def empty (capacity lifetime : Nat) : Cache :=
  { capacity := max capacity 1, lifetime }

/-- How many entries there are. -/
def size (c : Cache) : Nat :=
  c.entries.length

/-- The entry under a key. -/
def find? (c : Cache) (k : CacheKey) : Option CacheEntry :=
  c.entries.lookup k

/-- How long an entry lives. -/
def lifetimeOf (c : Cache) (e : CacheEntry) : Nat :=
  if e.isFallback then min c.lifetime fallbackLifetime else c.lifetime

/-- Whether an entry has outlived its time. -/
def isExpired (c : Cache) (now : Nat) (e : CacheEntry) : Bool :=
  decide (c.lifetimeOf e ≤ now - e.created)

/-- The cache without the entry under a key. -/
def remove (c : Cache) (k : CacheKey) : Cache :=
  { c with entries := c.entries.filter (·.1 ≠ k), order := c.order.filter (· ≠ k) }

/-- Makes a key the most recently used one. -/
def touch (c : Cache) (k : CacheKey) : Cache :=
  if c.order.contains k then { c with order := c.order.erase k ++ [k] } else c

/-- Looks for the rendering of a source.  An expired entry goes, and one with another source is no
match; neither counts as a use. -/
def get (c : Cache) (k : CacheKey) (code : String) (now : Nat) : Option Document × Cache :=
  match c.find? k with
  | none => (none, c)
  | some e =>
    if c.isExpired now e then (none, c.remove k)
    else if e.hash = k.hash ∧ e.source = code then (some e.document, c.touch k)
    else (none, c)

/-- The cache without the entry that was used least recently. -/
def evictOldest (c : Cache) : Cache :=
  match c.order with
  | [] => c
  | k :: rest => { c with entries := c.entries.filter (·.1 ≠ k), order := rest }

/-- The keys of the entries that have outlived their time. -/
def expiredKeys (c : Cache) (now : Nat) : List CacheKey :=
  (c.entries.filter fun (_, e) => c.isExpired now e).map Prod.fst

/-- Drops the expired entries, or the one that was used least recently if none is expired. -/
def makeRoom (c : Cache) (now : Nat) : Cache :=
  match c.expiredKeys now with
  | [] => c.evictOldest
  | keys => keys.foldl remove c

/-- Keeps a rendering, and makes room for it if its key is new and the cache is full. -/
def put (c : Cache) (k : CacheKey) (e : CacheEntry) (now : Nat) : Cache :=
  let c := if (c.find? k).isNone && decide (c.capacity ≤ c.size) then c.makeRoom now else c
  { c with
    entries := c.entries.filter (·.1 ≠ k) ++ [(k, e)]
    order := c.order.filter (· ≠ k) ++ [k] }

/-- The cache without any entry. -/
def clear (c : Cache) : Cache :=
  { c with entries := [], order := [] }

/-- Drops the least recently used entries until `excess` of them are gone. -/
def evictMany (c : Cache) : Nat → Cache
  | 0 => c
  | excess + 1 => c.evictOldest.evictMany excess

/-- Changes the capacity, and drops the least recently used entries that no longer fit. -/
def setCapacity (c : Cache) (capacity : Nat) : Cache :=
  let c := { c with capacity := max capacity 1 }
  c.evictMany (c.size - c.capacity)

end Cache

end CodeFence
