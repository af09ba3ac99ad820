import MediaIndex.Reconcile.Pass

/-!
# Scans

The two ways in: a scan of a directory, and a scan of a single file, which tells the number of the
row it wrote. Either is one pass, closed when it ran and given up when it failed.
-/

namespace MediaIndex.Reconcile

open Disk (Tree)

def Pass.complete (t : Tree) (p : Pass) : Dialogue Pass.Progress :=
  (p.run t).andThen fun progress => match progress.failure with
    | some failure => .finish ⟨progress.pass.abandon, some failure⟩
    | none =>
      let (closed, failure) := progress.pass.close
      .finish ⟨closed, failure⟩

def scan (t : Tree) (told : Bool) (path : Path) : Dialogue (Except Failure Pass) :=
  match Pass.start t path told Queue.usualSize with
  | .error fault => .finish (.error (.disk fault))
  | .ok pass => (pass.complete t).andThen fun progress => match progress.failure with
    | some failure => .finish (.error failure)
    | none => .finish (.ok progress.pass)

def scanDirectory (t : Tree) (told : Bool) (path : Path) : Dialogue (Except Failure Unit) :=
  .tell (.info ("Scanning directory " ++ path.text ++ "...")) <|
    (scan t told path).andThen fun result => .finish (result.map fun _ => ())

def scanFile (t : Tree) (told : Bool) (path : Path) : Dialogue (Except Failure (Option Int)) :=
  .tell (.info ("Scanning file " ++ path.text ++ "...")) <|
    (scan t told path).andThen fun result => .finish (result.map fun pass => pass.queue.first)

end MediaIndex.Reconcile
