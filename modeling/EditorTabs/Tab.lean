import EditorTabs.Text.Basic

/-!
# Tabs and groups

A tab shows a file, or nothing that has a path. Tabs are arranged in groups, and a group is named
by a text, a number, a flag or nothing. The flags stand for the numbers one and zero.
-/
namespace EditorTabs

/-- The name of a group. -/
inductive Group where
  | text (name : Text)
  | number (value : Int)
  | flag (value : Bool)
  | none
  deriving DecidableEq, Repr

/-- A group's name with a number for a flag. -/
def Group.key : Group → Group
  | .flag true => .number 1
  | .flag false => .number 0
  | group => group

def Group.same (a b : Group) : Bool :=
  a.key = b.key

theorem Group.same_iff (a b : Group) : a.same b = true ↔ a.key = b.key := by
  simp [Group.same]

structure Tab where
  path : Option Text
  group : Group := .number 0
  label : Text := []
  deriving DecidableEq, Repr

namespace Tab

/-- The path of a tab, if it has one; the empty path is none. -/
def file? (tab : Tab) : Option Text :=
  tab.path.filter (· ≠ [])

def files (tabs : List Tab) : List Text :=
  tabs.filterMap file?

/-- A tab with the key of its group in place of the name. -/
def keyed (tab : Tab) : Tab :=
  { tab with group := tab.group.key }

def sameList (as bs : List Tab) : Bool :=
  as.map keyed = bs.map keyed

end Tab

/-- The tabs of one group under the group's name as it first came up. -/
abbrev Members := Group × List Tab

def insertTab (tab : Tab) : List Members → List Members
  | [] => [(tab.group, [tab])]
  | (group, members) :: rest =>
    if group.same tab.group then (group, members ++ [tab]) :: rest
    else (group, members) :: insertTab tab rest

/-- The groups of a list of tabs, in the order in which they first come up, each with its tabs in
their order. -/
def groupTabs (tabs : List Tab) : List Members :=
  tabs.foldl (fun groups tab => insertTab tab groups) []

end EditorTabs
