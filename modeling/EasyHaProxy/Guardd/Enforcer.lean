import EasyHaProxy.Guardd.World

/-! `Enforcer`: every command guardd sends about `tbl_ban`. A ban is refused unless the mode is enforce; an
entry is read again before it is taken off. -/
namespace EasyHaProxy.Guardd

namespace Enforcer

def ban (ip : Ip) (placing : Placing) : M Bool := do
  let w ← Prog.get
  if w.mem.mode ≠ .enforce then pure false
  else if !enforceable ip then pure false
  else command Script.nextSet (.setTable ip placing)

/-- Every ban standing in the table, with its reason code. -/
def activeBans : M (Dict Ip Int) := do
  let rows ← readTable
  pure ((rows.filter (fun _ row => row.flagged)).mapValues (fun _ row => row.gpt0))

/-- Only the entries this daemon owns. -/
def adaptiveBans : M (List Ip) := do
  let rows ← readTable
  pure (rows.filter (fun _ row => row.gpt0 = adaptiveBanCode ∧ row.flagged)).keys

/-- `_clear`: raises when HAProxy answers with a text. -/
def clear (ip : Ip) (lifting : Lifting) : M Unit := do
  if ← command Script.nextClear (.clearTable ip lifting) then pure ()
  else Prog.throw .liftRefused

/-- Clear the entry only while it still carries this code. -/
def liftCode (ip : Ip) (code : Int) (lifting : Lifting) : M Bool := do
  let rows ← readTable
  match rows.get? ip with
  | none => pure false
  | some row =>
    if row.gpt0 ≠ code then pure false
    else do
      clear ip lifting
      pure true

def lift (ip : Ip) (lifting : Lifting) : M Bool := liftCode ip adaptiveBanCode lifting

/-- Put an entry there, whatever the mode. -/
def restore (ip : Ip) (placing : Placing) : M Bool :=
  if !enforceable ip then pure false else command Script.nextSet (.setTable ip placing)

/-- When the running HAProxy started; 0 if it cannot be told. -/
def startedAt : M Int := do
  match ← Prog.ask Script.nextInfo with
  | .done => do
    let w ← Prog.get
    pure w.startedAt
  | _ => pure 0

/-- Clear a ban HAProxy wrote under the old rules; 0 if it is not one. -/
def liftLegacy (ip : Ip) : M Int := do
  let rows ← readTable
  match rows.get? ip with
  | none => pure 0
  | some row =>
    if !row.flagged then pure 0
    else if row.gpt0 ∉ legacyBanCodes then pure 0
    else do
      clear ip .legacy
      pure row.gpt0

/-- Take whatever ban stands on an address off: its entry loses the flag. -/
def release (ip : Ip) : M Bool := do
  let rows ← readTable
  match rows.get? ip with
  | none => pure false
  | some row =>
    if !row.flagged then pure false
    else if ← command Script.nextSet (.unflag ip) then pure true
    else Prog.throw .liftRefused

end Enforcer

end EasyHaProxy.Guardd
