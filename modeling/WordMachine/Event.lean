import WordMachine.Instruction

/-!
# Trace events

Events record what a step does: the instruction it fetches and then each effect in
order.  Each event has one line of text.
-/

namespace WordMachine

inductive Event where
  | fetched (ins : Instruction Word) (address : Word)
  | jumped (target : Word)
  /-- A conditional jump met a clear zero flag. -/
  | passed
  | compared (r : Register) (value : Word) (equal : Bool)
  | read (value address : Word)
  | wrote (value address : Word)
  | assigned (r : Register) (value : Word)
  | exited
  /-- A step was asked of a machine that had halted. -/
  | refused
  deriving DecidableEq, Repr

def Event.text : Event → String
  | fetched ins address =>
      s!"Fetched instruction: {ins.text} at address {address.text}"
  | jumped target => s!"--> jump to {target.text}"
  | passed => "--> zero flag clear, no jump"
  | compared r value equal => s!"--> {r.name} == {value.text}: zero flag {equal}"
  | read value address => s!"--> read {value.text} from [{address.text}]"
  | wrote value address => s!"--> wrote {value.text} to [{address.text}]"
  | assigned r value => s!"--> {r.name} = {value.text}"
  | exited => "--> exit"
  | refused => "Cannot step: interpreter is halted"

end WordMachine
