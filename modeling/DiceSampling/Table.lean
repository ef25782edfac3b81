/-
# Tables of sources

The state behind several rolls that share sources: numbered feeds, numbered
cells in which evaluators keep what they remember, and a spare generator for
rolls that were given no source.
-/

import DiceSampling.Random.Supply

namespace DiceSampling

/-- Feeds and cells, each known by its number. -/
structure Table where
  feeds : Array Feed
  cells : Array Int64
  /-- The generator for rolls without a source of their own. -/
  spare : Generator

namespace Table

/-- A table of supplies from which nothing has been taken. -/
def ofSupplies (supplies : Array Supply) (spare : Generator) : Table :=
  ⟨supplies.map Feed.ofSupply, #[], spare⟩

/-- How many values have been taken from each feed. -/
def taken (table : Table) : Array Nat := table.feeds.map Feed.taken

/-- Takes the next value of a feed.  A number that names no feed gives zero. -/
def take (i : Nat) (table : Table) : Float × Table :=
  match table.feeds[i]? with
  | none => (0.0, table)
  | some feed =>
    let (r, feed) := feed.next
    (r, ⟨table.feeds.setIfInBounds i feed, table.cells, table.spare⟩)

/-- The source that takes from a feed. -/
def source (i : Nat) : Source Table := ⟨some i, modifyGet (take i)⟩

/-- The source that takes from the spare generator. -/
def spareSource : Source Table :=
  ⟨none, modifyGet fun table =>
    let (r, spare) := table.spare.value
    (r, ⟨table.feeds, table.cells, spare⟩)⟩

/-- A new cell with a value in it, and its number. -/
def addCell (value : Int64) (table : Table) : Nat × Table :=
  (table.cells.size, ⟨table.feeds, table.cells.push value, table.spare⟩)

/-- What a cell holds; zero if there is no such cell. -/
def cell (i : Nat) (table : Table) : Int64 := table.cells.getD i 0

/-- Puts a value into a cell. -/
def setCell (i : Nat) (value : Int64) (table : Table) : Table :=
  ⟨table.feeds, table.cells.setIfInBounds i value, table.spare⟩

end Table

end DiceSampling
