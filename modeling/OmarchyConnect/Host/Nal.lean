/-
# Annex-B access-unit splitter

`pushBytes` regroups the raw byte stream of the hardware encoder into access
units. It rescans what it holds on every call: `startCodes` finds the start
codes, the windows between them are the closed NAL units, and a window whose type
opens a picture closes the group before it. The last group stays in the buffer.
-/

import OmarchyConnect.Library.Wire

namespace OmarchyConnect.Host

open OmarchyConnect.Library.Wire

/-- An access unit that was cut out. -/
structure AccessUnit where
  keyframe : Bool
  data : Bytes
  deriving DecidableEq, Repr

/-- The scan of `startCodes` from index `i` on. -/
def startCodesFrom (buf : Bytes) (i : ℕ) : List ℕ :=
  if i + 2 < buf.length then
    if buf.getD i 0 = 0 ∧ buf.getD (i + 1) 0 = 0 ∧ buf.getD (i + 2) 0 = 1 then
      i :: startCodesFrom buf (i + 3)
    else if i + 3 < buf.length ∧ buf.getD i 0 = 0 ∧ buf.getD (i + 1) 0 = 0 ∧
        buf.getD (i + 2) 0 = 0 ∧ buf.getD (i + 3) 0 = 1 then
      i :: startCodesFrom buf (i + 4)
    else startCodesFrom buf (i + 1)
  else []
termination_by buf.length - i

/-- Where the 3- and 4-byte start codes of the buffer begin. -/
def startCodes (buf : Bytes) : List ℕ := startCodesFrom buf 0

/-- The type in the header byte after the start code at `start`. -/
def nalType (buf : Bytes) (start : ℕ) : UInt8 :=
  let header :=
    if start + 2 < buf.length ∧ buf.getD (start + 2) 0 = 1 then start + 3 else start + 4
  if header < buf.length then buf.getD header 0 &&& 0x1f else 0

/-- Slice types: these NAL units carry picture data. -/
def isVcl (kind : UInt8) : Bool := decide (1 ≤ kind ∧ kind ≤ 5)

/-- Whether a NAL unit of this type closes the group before it. -/
def isBoundary (kind : UInt8) (currentHasVcl : Bool) : Bool :=
  kind == 9 || kind == 7 || (isVcl kind && currentHasVcl)

/-- The state of the grouping loop. -/
structure Grouping (ω : Type) where
  groups : List (List ω) := []
  current : List ω := []
  currentHasVcl : Bool := false
  deriving DecidableEq, Repr

/-- One turn of the grouping loop, for windows whose type `kind` tells. -/
def Grouping.push {ω : Type} (kind : ω → UInt8) (state : Grouping ω) (window : ω) :
    Grouping ω :=
  let opened : Grouping ω :=
    if isBoundary (kind window) state.currentHasVcl && !state.current.isEmpty then
      { groups := state.groups ++ [state.current], current := [], currentHasVcl := false }
    else state
  { opened with
    current := opened.current ++ [window]
    currentHasVcl := opened.currentHasVcl || isVcl (kind window) }

/-- The unit cut out for one group; a group is never empty and nor is its data. -/
def unitOf (buf : Bytes) (group : List (ℕ × ℕ)) : Option AccessUnit :=
  match group.head?, group.getLast? with
  | some (begin, _), some (_, last) =>
      let data := (buf.drop begin).take (last - begin)
      let keyframe := group.any fun window =>
        nalType buf window.1 == 5 || nalType buf window.1 == 7
      if data.isEmpty then none else some { keyframe, data }
  | _, _ => none

/-- Append `incoming`, emit the access units that are complete, keep the rest. -/
def pushBytes (buf incoming : Bytes) : List AccessUnit × Bytes :=
  let buf := if incoming.isEmpty then buf else buf ++ incoming
  let starts := startCodes buf
  if starts.length < 2 then ([], buf)
  else
    let windows := starts.zip starts.tail
    let state := windows.foldl (Grouping.push fun window => nalType buf window.1) {}
    let keepFrom :=
      match state.current.head? with
      | some (start, _) => start
      | none => starts.getLastD 0
    let units := state.groups.filterMap (unitOf buf)
    (units, if 0 < keepFrom ∧ keepFrom ≤ buf.length then buf.drop keepFrom else buf)

end OmarchyConnect.Host
