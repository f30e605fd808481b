import Placement.Engine.Recorded

/-!
# Rehearsed engines

An engine for trials of failure: some topics never return, some fail, and a list of cues decides
what the next questions meet. Where nothing is laid down it answers from the records.
-/

namespace Placement

/-- What one question meets, whatever it is about. -/
inductive Cue where
  /-- Nothing matches. -/
  | nothing
  | fail (e : EngineError)
  /-- The first of the given candidates with each id, in this order. -/
  | pick (ids : List String)
  /-- These candidates, whatever was given. -/
  | candidates (cs : List Candidate)
  /-- This location. -/
  | location (l : Location)
  /-- The answer from the records. -/
  | recorded

structure Rehearsal where
  silent : List Topic
  down : List Topic
  garbled : List Topic

namespace Cue

def picked (ids : List String) (given : List Candidate) : List Candidate :=
  ids.filterMap (Candidate.find? given)

/-- The answer to a question from a cue; a cue that does not fit the question leaves it to the
records. -/
def respond (cue : Cue) (q : Query) : Response q :=
  match cue, q with
  | fail e, _ => .error e
  | nothing, .attributes _ _ _ => .ok ([] : List Candidate)
  | nothing, .location _ => .ok (none : Option Location)
  | nothing, .hpa _ _ => .ok (none : Option (List Candidate))
  | nothing, .vim _ _ => .ok (none : Option (List Candidate))
  | nothing, .service _ _ => .ok (none : Option (List Candidate))
  | pick ids, .attributes _ _ given => .ok (picked ids given)
  | pick ids, .hpa _ given => .ok (some (picked ids given))
  | pick ids, .vim _ given => .ok (some (picked ids given))
  | pick ids, .service _ given => .ok (some (picked ids given))
  | candidates cs, .attributes _ _ _ => .ok cs
  | candidates cs, .hpa _ _ => .ok (some cs)
  | candidates cs, .vim _ _ => .ok (some cs)
  | candidates cs, .service _ _ => .ok (some cs)
  | location l, .location _ => .ok (some l)
  | _, q => .ok (Recorded.answer q)

end Cue

/-- The state of a rehearsed engine is the list of cues that are left; a topic that is silent, down
or garbled takes none of them. -/
def Engine.rehearsed (r : Rehearsal) : Engine (List Cue) where
  reply q cues :=
    if q.topic ∈ r.silent then (.silence, cues)
    else if q.topic ∈ r.down then
      (.response (.error (.unavailable (q.topic.name ++ " down"))), cues)
    else if q.topic ∈ r.garbled then
      (.response (.error (.badResponse (q.topic.name ++ " garbled"))), cues)
    else
      match cues with
      | [] => (.response (.ok (Recorded.answer q)), [])
      | cue :: cues => (.response (cue.respond q), cues)

end Placement
