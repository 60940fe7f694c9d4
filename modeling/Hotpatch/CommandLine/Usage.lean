/-! What the command line shows of itself: its usage and its help. -/

namespace Hotpatch.CommandLine

def program : String := "livepatch-build"

def usageLines : List String := [
  "usage: livepatch-build [-h] [-s SOURCEDIR | -t TARGET_VERSION] [-c CONFIG]",
  "                       [-v VMLINUX] [-j JOBS] [--target TARGETS] [-n NAME]",
  "                       [-o OUTPUT] [--oot-module OOT_MODULE]",
  "                       [--cache-dir CACHE_DIR] [--fetch-command FETCH_COMMAND]",
  "                       [--diff-compiler DIFF_COMPILER]",
  "                       [--module-tool MODULE_TOOL]",
  "                       [--ld-flag EXTRA_LINK_FLAGS]",
  "                       [--make-arg EXTRA_MAKE_ARGS] [-d] [--skip-cleanup]",
  "                       [--skip-gcc-check] [--settings SETTINGS]",
  "                       [--save-settings SAVE_SETTINGS]",
  "                       [patches ...]"]

def helpLines : List String := [
  "",
  "Build a live-patch kernel module from source patches",
  "",
  "positional arguments:",
  "  patches               Patch files, applied in order with -p1",
  "",
  "options:",
  "  -h, --help            show this help message and exit",
  "  -s SOURCEDIR, --sourcedir SOURCEDIR",
  "                        Prebuilt kernel source directory",
  "  -t TARGET_VERSION, --target-version TARGET_VERSION",
  "                        Kernel version to fetch into the cache",
  "  -c CONFIG, --config CONFIG",
  "                        Kernel .config (default: <sourcedir>/.config)",
  "  -v VMLINUX, --vmlinux VMLINUX",
  "                        Original vmlinux (default: <sourcedir>/vmlinux)",
  "  -j JOBS, --jobs JOBS  Number of parallel jobs (0=auto)",
  "  --target TARGETS      Make target to build; may be repeated (default:",
  "                        vmlinux modules)",
  "  -n NAME, --name NAME  Name of the patch module",
  "  -o OUTPUT, --output OUTPUT",
  "                        Output directory (default: current directory)",
  "  --oot-module OOT_MODULE",
  "                        Out-of-tree module to patch",
  "  --cache-dir CACHE_DIR",
  "                        Cache directory (default: ~/.livepatch-build)",
  "  --fetch-command FETCH_COMMAND",
  "                        Tool invoked as \"<command> <version> <dir>\" to fetch",
  "                        source",
  "  --diff-compiler DIFF_COMPILER",
  "                        Per-object diff compiler executable",
  "  --module-tool MODULE_TOOL",
  "                        Module assembly executable",
  "  --ld-flag EXTRA_LINK_FLAGS",
  "                        Extra flag for the final relocatable link; may be",
  "                        repeated",
  "  --make-arg EXTRA_MAKE_ARGS",
  "                        Extra argument for every build pass; may be repeated",
  "  -d, --debug           Keep scratch files and log everything",
  "  --skip-cleanup        Keep scratch files",
  "  --skip-gcc-check      Skip the compiler version check",
  "  --settings SETTINGS   Load settings from a JSON file",
  "  --save-settings SAVE_SETTINGS",
  "                        Save settings to a JSON file and exit",
  "",
  "Examples:",
  "  # Patch a kernel tree that has already been built",
  "  livepatch-build --sourcedir ~/linux fix-leak.patch",
  "",
  "  # Fetch and cache the source for a distribution kernel first",
  "  livepatch-build --target-version 5.14.0-70 --fetch-command get-kernel-src -- fix-leak.patch",
  "",
  "  # Several patches in one module, custom name",
  "  livepatch-build --sourcedir ~/linux --name cve-fixes a.patch b.patch",
  "",
  "  # Save the options for later runs",
  "  livepatch-build --sourcedir ~/linux --save-settings lp.json fix-leak.patch",
  "        "]

def textOf (lines : List String) : String := String.join (lines.map (· ++ "\n"))

def usage : String := textOf usageLines

def help : String := usage ++ textOf helpLines

/-- What is shown when the arguments can't be understood. -/
def refusal (message : String) : String := usage ++ program ++ ": error: " ++ message ++ "\n"

end Hotpatch.CommandLine
