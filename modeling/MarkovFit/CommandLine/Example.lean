/-!
# An example of settings

A configuration text that shows all settings; those that are off stand behind a comment sign.
-/

namespace MarkovFit.CommandLine

/-- The lines of the example. -/
def exampleLines : List String :=
  ["# pacfit configuration file",
    "",
    "strategy = \"scenario\"   # or \"direct\"",
    "",
    "[model]",
    "file = \"models/brp.pm\"",
    "type = \"prism\"          # or \"jani\"",
    "property = 'P=? [ F \"target\" ]'",
    "constants = \x7b N = 16, MAX = 2 \x7d",
    "",
    "[[parameters]]",
    "name = \"pL\"",
    "lower = 0.1",
    "upper = 0.9",
    "",
    "[[parameters]]",
    "name = \"pK\"",
    "lower = 0.1",
    "upper = 0.9",
    "",
    "[oracle]",
    "backend = \"wrapper\"     # \"wrapper\", \"storm\", \"stormsmcc\", " ++
      "\"prismsmc\" or \"synthetic\"",
    "# path = \"/opt/storm/bin/storm-wrapper\"",
    "# options = [\"--exact\"]",
    "threads = 4",
    "# timeout_secs = 600",
    "# smc = \x7b method = \"apmc\", approx = 0.01, conf = 0.05, " ++
      "pathlen = 10000, samples = 1000 \x7d",
    "",
    "[scenario]",
    "epsilon = 0.05",
    "eta = 0.05",
    "degree = 2",
    "# template = \"1, pL, pK, pL*pK\"",
    "# lambda = 0.5",
    "# samples = 200",
    "vertices = \"none\"       # \"none\", \"replace\" or \"additive\"",
    "boundary_points = 0",
    "# seed = 42",
    "show_range = true",
    "",
    "[lp]",
    "solver = \"simplex\"      # or \"octave\"",
    "precision = 0.000000001",
    "scaling = 0",
    "",
    "[search]",
    "direction = \"max\"",
    "exploration = 0.1",
    "exploitation_limit = 1000",
    "iteration_limit = 500",
    "# value_absolute = 1e-8",
    "# parameters_relative = 1e-4",
    "",
    "[output]",
    "format = \"math\"         # \"math\", \"latex\" or \"matlab\"",
    "# report = \"output/report.json\""]

end MarkovFit.CommandLine
