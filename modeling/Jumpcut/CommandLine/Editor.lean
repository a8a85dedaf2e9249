import Jumpcut.CommandLine.Program
import Jumpcut.CommandLine.Pages

namespace Jumpcut.CommandLine

def editorInput : Positional :=
  { name := "input"
    metavar := "[file | url ...] [options]" }

def editorEntries : List Entry :=
  [ .heading "Editing Options:",
    .taking .margin ["--margin", "-m"] "LENGTH"
      "Set sections near \"loud\" as \"loud\" too if section is less than LENGTH away.",
    .taking .time ["--min-clip-length", "--min-clip", "-minclip", "-mclip"] "LENGTH"
      "Set the minimum length a clip can be. If a clip is too short, cut it",
    .taking .time ["--min-cut-length", "--min-cut", "-mincut", "-mcut"] "LENGTH"
      "Set the minimum length a cut can be. If a cut is too short, don't cut",
    .taking .text ["--edit-based-on", "--edit"] "[METHOD:[ATTRS?] OPERAND? ...]"
      "Decide which method to use when making edits",
    .taking .speed ["--silent-speed", "-s"] "NUM" "Set speed of sections marked \"silent\" to NUM",
    .taking .speed ["--video-speed", "--sounded-speed", "-v"] "NUM"
      "Set speed of sections marked \"loud\" to NUM",
    .collecting .timeRange ["--cut-out"] "[START,STOP ...]"
      ("The range of media that will be removed completely, regardless of the value of " ++
        "silent speed"),
    .collecting .timeRange ["--add-in"] "[START,STOP ...]"
      "The range of media that will be added in, opposite of --cut-out",
    .collecting .timeRange ["--mark-as-loud"] "[START,STOP ...]"
      "The range that will be marked as \"loud\"",
    .collecting .timeRange ["--mark-as-silent"] "[START,STOP ...]"
      "The range that will be marked as \"silent\"",
    .collecting .speedRange ["--set-speed-for-range", "--set-speed"] "[SPEED,START,STOP ...]"
      "Set an arbitrary speed for a given range",
    .heading "Timeline Options:",
    .taking .frameRate ["--frame-rate", "-fps", "-r", "--time-base", "-tb"] "NUM"
      "Set timeline frame rate",
    .taking .sampleRate ["--sample-rate", "-ar"] "NAT" "Set timeline sample rate",
    .taking .resolution ["--resolution", "-res"] "WIDTH,HEIGHT" "Set timeline width and height",
    .taking .color ["--background", "-b"] "COLOR" "Set the background as a solid RGB color",
    .collecting .text ["--add"] "OBJ:START,DUR,ATTRS?" "Insert an timeline object to the timeline",
    .collecting .text ["--source", "-src"] "LABEL:PATH"
      "Add a source and associate it with a label",
    .heading "URL Download Options:",
    .taking .text ["--yt-dlp-location"] "PATH" "Set a custom path to yt-dlp",
    .taking .text ["--download-format"] "FORMAT" "Set the yt-dlp download format (--format, -f)",
    .taking .text ["--output-format"] "TEMPLATE"
      "Set the yt-dlp output file template (--output, -o)",
    .taking .text ["--yt-dlp-extras"] "CMD" "Add extra options for yt-dlp. Must be in quotes",
    .heading "Utility Options:",
    .taking .text ["--export", "-ex"] "EXPORT:ATTRS?" "Choose the export mode",
    .taking .text ["--output-file", "--output", "-o"] "FILE"
      "Set the name/path of the new output file.",
    .taking .text ["--player", "-p"] "CMD" "Set player to open output media files",
    .flag ["--no-open"] "Do not open the output file after editing is done",
    .taking .text ["--temp-dir"] "PATH" "Set where the temporary directory is located",
    .taking .text ["--ffmpeg-location"] "PATH" "Set a custom path to the ffmpeg location",
    .flag ["--my-ffmpeg"] "Use the ffmpeg on your PATH instead of the one packaged",
    .heading "Display Options:",
    .option
      { names := ["--progress"]
        choices := some ["modern", "classic", "ascii", "machine", "none"]
        metavar := some "PROGRESS"
        help := "Set what type of progress bar to use" },
    .flag ["--debug"] "Show debugging messages and values",
    .flag ["--show-ffmpeg-debug"] "Show ffmpeg progress and output",
    .flag ["--quiet", "-q"] "Display less output",
    .flag ["--preview", "--stats"] "Show stats on how the input will be cut and halt",
    .heading "Video Rendering:",
    .taking .text ["--video-codec", "-vcodec", "-c:v"] "ENCODER" "Set video codec for output media",
    .taking .text ["--video-bitrate", "-b:v"] "BITRATE"
      "Set the number of bits per second for video",
    .taking .text ["--video-quality-scale", "-qscale:v", "-q:v"] "SCALE"
      "Set a value to the ffmpeg option -qscale:v",
    .taking .number ["--scale"] "NUM" "Scale the output video's resolution by NUM factor",
    .flag ["--no-seek"]
      "Disable file seeking when rendering video. Helpful for debugging desync issues",
    .heading "Audio Rendering:",
    .taking .text ["--audio-codec", "-acodec", "-c:a"] "ENCODER" "Set audio codec for output media",
    .taking .text ["--audio-bitrate", "-b:a"] "BITRATE"
      "Set the number of bits per second for audio",
    .flag ["--keep-tracks-separate"] "Don't mix all audio tracks into one when exporting",
    .heading "Miscellaneous:",
    .taking .text ["--extras"] "CMD" "Add extra options for ffmpeg. Must be in quotes",
    .flag ["--version", "-V"] "Display version and halt" ]

def editorDefaults : Values :=
  [ ("add", .many []), ("source", .many []), ("yt_dlp_location", .text "yt-dlp"),
    ("download_format", .absent), ("output_format", .absent), ("yt_dlp_extras", .absent),
    ("video_codec", .text "auto"), ("audio_codec", .text "auto"), ("video_bitrate", .text "10m"),
    ("audio_bitrate", .text "unset"), ("video_quality_scale", .text "unset"),
    ("scale", .number (.float 1.0)), ("extras", .absent), ("no_seek", .flag false),
    ("cut_out", .many []), ("add_in", .many []), ("mark_as_loud", .many []),
    ("mark_as_silent", .many []), ("set_speed_for_range", .many []), ("frame_rate", .absent),
    ("sample_rate", .absent), ("resolution", .absent), ("background", .text "#000"),
    ("edit_based_on", .text "audio"), ("keep_tracks_separate", .flag false), ("export", .absent),
    ("player", .absent), ("no_open", .flag false), ("temp_dir", .absent),
    ("ffmpeg_location", .absent), ("my_ffmpeg", .flag false), ("progress", .text "modern"),
    ("version", .flag false), ("debug", .flag false), ("show_ffmpeg_debug", .flag false),
    ("quiet", .flag false), ("preview", .flag false),
    ("margin", .margin (.seconds "0.2") (.seconds "0.2")),
    ("silent_speed", .number (.float 99999.0)), ("video_speed", .number (.float 1.0)),
    ("min_clip_length", .length (.ticks 3)), ("min_cut_length", .length (.ticks 6)),
    ("output_file", .absent), ("help", .flag false), ("input", .many []) ]

def editor : Program :=
  { title := some "Auto-Editor"
    positional := editorInput
    entries := editorEntries
    defaults := editorDefaults
    pages := editorPages
    macros :=
      [ (["--frame-margin"], ["--margin"]),
        (["--export-to-premiere", "-exp"], ["--export", "premiere"]),
        (["--export-to-final-cut-pro", "-exf"], ["--export", "final-cut-pro"]),
        (["--export-to-shotcut", "-exs"], ["--export", "shotcut"]),
        (["--export-as-json"], ["--export", "json"]),
        (["--export-as-clip-sequence", "-excs"], ["--export", "clip-sequence"]),
        (["--keep-tracks-seperate"], ["--keep-tracks-separate"]) ] }

end Jumpcut.CommandLine
