/-!
# Lines of a stream

A stream is cut at a delimiter as it comes in: the lines that are complete, and the rest.
-/

namespace LlamaOS.Lines

variable {α : Type} [DecidableEq α] (delimiter : α)

def push (lines : List (List α) × List α) (c : α) : List (List α) × List α :=
  if c = delimiter then (lines.1 ++ [lines.2], []) else (lines.1, lines.2 ++ [c])

def cut (stream : List α) : List (List α) × List α := stream.foldl (push delimiter) ([], [])

def complete (stream : List α) : List (List α) := (cut delimiter stream).1

def rest (stream : List α) : List α := (cut delimiter stream).2

theorem cut_snoc (stream : List α) (c : α) :
    cut delimiter (stream ++ [c]) = push delimiter (cut delimiter stream) c := by
  rw [cut, List.foldl_append]
  rfl

theorem complete_snoc_delimiter (stream : List α) :
    complete delimiter (stream ++ [delimiter]) = complete delimiter stream ++
      [rest delimiter stream] := by
  rw [complete, cut_snoc, push, if_pos rfl]
  rfl

theorem rest_snoc_delimiter (stream : List α) : rest delimiter (stream ++ [delimiter]) = [] := by
  rw [rest, cut_snoc, push, if_pos rfl]

variable {delimiter}

theorem rest_snoc {c : α} (h : c ≠ delimiter) (stream : List α) :
    rest delimiter (stream ++ [c]) = rest delimiter stream ++ [c] := by
  rw [rest, cut_snoc, push, if_neg h]
  rfl

theorem mem_complete_append {line stream : List α} (h : line ∈ complete delimiter stream)
    (more : List α) : line ∈ complete delimiter (stream ++ more) := by
  induction more generalizing stream with
  | nil =>
    rw [List.append_nil]
    exact h
  | cons c more ih =>
    rw [List.append_cons]
    refine ih ?_
    rw [complete, cut_snoc, push]
    split
    · exact List.mem_append_left _ h
    · exact h

end LlamaOS.Lines
