import InCircuit.CommandLine.Commands

set_option autoImplicit false

/-!
# What a job ends with

A job ends with a result and leaves a session and a console, or it ends with a failure and leaves
both as they were then.
-/
namespace InCircuit

theorem Task.runIn_bind {α β : Type} (f : α → Task β) (t : Task α) (c : Console) :
    (t.bind f).runIn c = (f (t.runIn c).1).runIn (t.runIn c).2 := by
  induction t generalizing c with
  | done a => rfl
  | print line next ih => exact ih _
  | printError line next ih => exact ih _
  | readFile path next ih => exact ih _ c
  | writeFile path content next ih =>
    simp only [Task.bind, Task.runIn]
    split
    · exact ih _ _
    · exact ih _ _

namespace Job

variable {σ α β : Type} {s s' : Session σ} {c c' : Console}

def result (j : Job σ α) (s : Session σ) (c : Console) :
    (Except Failure α × Session σ) × Console :=
  (j.run.run s).runIn c

theorem result_bind_ok {j : Job σ α} {a : α} (f : α → Job σ β)
    (h : j.result s c = ((.ok a, s'), c')) : (j >>= f).result s c = (f a).result s' c' := by
  refine (Task.runIn_bind _ (j.run.run s) c).trans ?_
  change (j.run.run s).runIn c = _ at h
  rw [h]
  rfl

theorem result_bind_error {j : Job σ α} {e : Failure} (f : α → Job σ β)
    (h : j.result s c = ((.error e, s'), c')) :
    (j >>= f).result s c = ((.error e, s'), c') := by
  refine (Task.runIn_bind _ (j.run.run s) c).trans ?_
  change (j.run.run s).runIn c = _ at h
  rw [h]
  rfl

theorem result_print (line : String) (s : Session σ) (c : Console) :
    (print line : Job σ Unit).result s c =
      ((.ok (), s), { c with out := c.out ++ line ++ "\n" }) := rfl

theorem result_onSession (f : Session σ → Except Fault α × Session σ) (s : Session σ)
    (c : Console) : (onSession f).result s c = (((f s).1.mapError .fault, (f s).2), c) := by
  simp only [result, onSession, ExceptT.run_mk, StateT.run]
  split
  · rename_i ran
    rw [ran]
    rfl
  · rename_i ran
    rw [ran]
    rfl

theorem result_onSession_ok {f : Session σ → Except Fault α × Session σ} {a : α}
    (h : (f s).1 = .ok a) (c : Console) : (onSession f).result s c = ((.ok a, (f s).2), c) := by
  rw [result_onSession, h]
  rfl

theorem result_onSession_error {f : Session σ → Except Fault α × Session σ} {fault : Fault}
    (h : (f s).1 = .error fault) (c : Console) :
    (onSession f).result s c = ((.error (.fault fault), (f s).2), c) := by
  rw [result_onSession, h]
  rfl

theorem result_loadHex {path text : String} (reads : c.folder.read path = .ok text.toUTF8)
    (s : Session σ) (capacity : Nat) :
    (loadHex path capacity : Job σ Image).result s c =
      (((Image.ofIntelHex text capacity).mapError .fault, s), c) := by
  have content : (ofTask (.readFile path .done) : Job σ (Except FileFault ByteArray)).result s c =
      ((.ok (.ok text.toUTF8), s), c) := by
    rw [← reads]
    rfl
  have decoded : String.fromUTF8? text.toUTF8 = some text := dif_pos text.isValidUTF8
  refine (result_bind_ok _ content).trans ?_
  refine (result_bind_ok (j := (pure text.toUTF8 : Job σ ByteArray)) _ rfl).trans ?_
  rw [decoded]
  change (ofExcept .fault (Image.ofIntelHex text capacity) : Job σ Image).result s c = _
  cases Image.ofIntelHex text capacity with
  | ok i => rfl
  | error e => rfl

end Job

end InCircuit
