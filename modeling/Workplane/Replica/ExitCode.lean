/-!
# Exit codes

The exit code of a process in plain words.  Codes from 128 to 165 name a fatal signal unless they
have words of their own; every code that has no words is named by its number.
-/

namespace Workplane.ExitCode

/-- An exit code in plain words. -/
def explain (code : Int32) : String :=
  let n := code.toInt
  if n = 0 then "Success"
  else if n = 1 then "General application error"
  else if n = 2 then "Shell misuse: missing keyword or command"
  else if n = 126 then "Command found but not executable"
  else if n = 127 then "Command not found"
  else if n = 130 then "Terminated by SIGINT (Ctrl+C)"
  else if n = 137 then "Terminated by SIGKILL, possibly out of memory (OOM)"
  else if n = 139 then "Terminated by SIGSEGV (segmentation fault)"
  else if n = 143 then "Terminated by SIGTERM"
  else if 128 ≤ n ∧ n ≤ 165 then s!"Terminated by fatal signal {n - 128}"
  else s!"Unknown error with exit code {n}"

end Workplane.ExitCode
